import CacheShfs.Core.Path
import CacheShfs.Lib.FiniteMap

/-!
# The session state of the virtual filesystem

`State` of `crates/cacheshfs-core/src/vfs.rs`: the registry of nodes and open handles, the
times at which paths were last confirmed against the remote (`validated`), and the recent
not-found lookups (`negative`).  It lives for one session; what survives a session is in the
store.

`State.Wf` is what the registry keeps whatever is called: the two maps between paths and nodes
agree in one direction, and identifiers are handed out in order.  The other direction fails:
after a rename onto a path, the node that had this path keeps it beside the renamed one.
-/

namespace CacheShfs

/-- `struct OpenFile`. -/
structure OpenFile where
  node : NodeId
  path : RemotePath
  deriving DecidableEq

/-- `struct State`.  Instants are nanoseconds. -/
structure State where
  nextNode : ℕ
  nextHandle : ℕ
  pathToNode : FMap RemotePath NodeId
  nodeToPath : FMap NodeId RemotePath
  handles : FMap FileHandle OpenFile
  validated : FMap RemotePath ℕ
  negative : FMap (NodeId × Str) ℕ

namespace State

/-- The state `CacheVfs::new` starts with. -/
def new (root : RemotePath) : State where
  nextNode := NodeId.root.val + 1
  nextHandle := 1
  pathToNode := AList.insert root NodeId.root ∅
  nodeToPath := AList.insert NodeId.root root ∅
  handles := ∅
  validated := ∅
  negative := ∅

/-- `State::path_of`. -/
def pathOf (node : NodeId) (st : State) : Except Error RemotePath :=
  match st.nodeToPath.lookup node with
  | some path => .ok path
  | none => .error .notFound

/-- `State::intern`. -/
def intern (path : RemotePath) (st : State) : NodeId × State :=
  match st.pathToNode.lookup path with
  | some node => (node, st)
  | none =>
      let node : NodeId := ⟨st.nextNode⟩
      (node, { st with
        nextNode := st.nextNode + 1
        pathToNode := st.pathToNode.insert path node
        nodeToPath := st.nodeToPath.insert node path })

/-- `State::open_handle`. -/
def openHandle (node : NodeId) (path : RemotePath) (st : State) : FileHandle × State :=
  let handle : FileHandle := ⟨st.nextHandle⟩
  (handle, { st with
    nextHandle := st.nextHandle + 1
    handles := st.handles.insert handle ⟨node, path⟩ })

/-- `State::rename_path`. -/
def renamePath (src dst : RemotePath) (st : State) : State :=
  match st.pathToNode.lookup src with
  | some node =>
      { st with
        pathToNode := (st.pathToNode.erase src).insert dst node
        nodeToPath := st.nodeToPath.insert node dst }
  | none => st

/-! Single updates of the maps, as the calls make them. -/

/-- `validated.insert(path, now)`. -/
def stamp (path : RemotePath) (now : ℕ) (st : State) : State :=
  { st with validated := st.validated.insert path now }

/-- `validated.remove(&path)`. -/
def unstamp (path : RemotePath) (st : State) : State :=
  { st with validated := st.validated.erase path }

/-- `negative.insert((parent, name), now)`. -/
def negate (parent : NodeId) (name : Str) (now : ℕ) (st : State) : State :=
  { st with negative := st.negative.insert (parent, name) now }

/-- `negative.remove(&(parent, name))`. -/
def unnegate (parent : NodeId) (name : Str) (st : State) : State :=
  { st with negative := st.negative.erase (parent, name) }

/-- `handles.remove(&handle)`. -/
def close (handle : FileHandle) (st : State) : State :=
  { st with handles := st.handles.erase handle }

/-! ## Views -/

/-- The path of a node. -/
def path (st : State) (node : NodeId) : Option RemotePath := st.nodeToPath.lookup node

/-- The record of a handle. -/
def file (st : State) (handle : FileHandle) : Option OpenFile := st.handles.lookup handle

/-- When a path was last confirmed. -/
def validatedAt (st : State) (path : RemotePath) : Option ℕ := st.validated.lookup path

/-- When a name was last not found. -/
def negativeAt (st : State) (key : NodeId × Str) : Option ℕ := st.negative.lookup key

lemma pathOf_ok {node : NodeId} {p : RemotePath} {st : State} :
    st.pathOf node = .ok p ↔ st.path node = some p := by
  unfold pathOf path
  split
  · next h => simp [h]
  · next h => simp [h]

lemma path_of_pathOf_error {node : NodeId} {e : Error} {st : State}
    (h : st.pathOf node = .error e) : st.path node = none := by
  unfold pathOf at h
  split at h
  · cases h
  · next hnone => exact hnone

section
variable (st : State) (p q : RemotePath) (n : NodeId) (name : Str) (t : ℕ) (h : FileHandle)

@[simp] lemma path_stamp (m : NodeId) : (st.stamp p t).path m = st.path m := rfl
@[simp] lemma path_unstamp (m : NodeId) : (st.unstamp p).path m = st.path m := rfl
@[simp] lemma path_negate (m : NodeId) : (st.negate n name t).path m = st.path m := rfl
@[simp] lemma path_unnegate (m : NodeId) : (st.unnegate n name).path m = st.path m := rfl
@[simp] lemma path_close (m : NodeId) : (st.close h).path m = st.path m := rfl
@[simp] lemma path_openHandle (m : NodeId) : (st.openHandle n p).2.path m = st.path m := rfl

@[simp] lemma file_stamp (g : FileHandle) : (st.stamp p t).file g = st.file g := rfl
@[simp] lemma file_unstamp (g : FileHandle) : (st.unstamp p).file g = st.file g := rfl
@[simp] lemma file_negate (g : FileHandle) : (st.negate n name t).file g = st.file g := rfl
@[simp] lemma file_unnegate (g : FileHandle) : (st.unnegate n name).file g = st.file g := rfl

lemma file_close (g : FileHandle) :
    (st.close h).file g = if g = h then none else st.file g :=
  FMap.lookup_erase_eq_ite _ _ _

lemma file_openHandle (g : FileHandle) :
    (st.openHandle n p).2.file g =
      if g = ⟨st.nextHandle⟩ then some ⟨n, p⟩ else st.file g :=
  FMap.lookup_insert_eq_ite _ _ _ _

lemma validatedAt_stamp :
    (st.stamp p t).validatedAt q = if q = p then some t else st.validatedAt q :=
  FMap.lookup_insert_eq_ite _ _ _ _

lemma validatedAt_unstamp :
    (st.unstamp p).validatedAt q = if q = p then none else st.validatedAt q :=
  FMap.lookup_erase_eq_ite _ _ _

@[simp] lemma validatedAt_negate : (st.negate n name t).validatedAt q = st.validatedAt q := rfl
@[simp] lemma validatedAt_unnegate : (st.unnegate n name).validatedAt q = st.validatedAt q := rfl
@[simp] lemma validatedAt_close : (st.close h).validatedAt q = st.validatedAt q := rfl
@[simp] lemma validatedAt_openHandle :
    (st.openHandle n p).2.validatedAt q = st.validatedAt q := rfl

lemma negativeAt_negate (key : NodeId × Str) :
    (st.negate n name t).negativeAt key =
      if key = (n, name) then some t else st.negativeAt key :=
  FMap.lookup_insert_eq_ite _ _ _ _

lemma negativeAt_unnegate (key : NodeId × Str) :
    (st.unnegate n name).negativeAt key = if key = (n, name) then none else st.negativeAt key :=
  FMap.lookup_erase_eq_ite _ _ _

@[simp] lemma negativeAt_stamp (key : NodeId × Str) :
    (st.stamp p t).negativeAt key = st.negativeAt key := rfl
@[simp] lemma negativeAt_unstamp (key : NodeId × Str) :
    (st.unstamp p).negativeAt key = st.negativeAt key := rfl
@[simp] lemma negativeAt_close (key : NodeId × Str) :
    (st.close h).negativeAt key = st.negativeAt key := rfl
@[simp] lemma negativeAt_openHandle (key : NodeId × Str) :
    (st.openHandle n p).2.negativeAt key = st.negativeAt key := rfl

/-! `intern` and `rename_path` touch the registry only. -/

@[simp] lemma validatedAt_intern : (st.intern p).2.validatedAt q = st.validatedAt q := by
  unfold intern
  split <;> rfl

@[simp] lemma negativeAt_intern (key : NodeId × Str) :
    (st.intern p).2.negativeAt key = st.negativeAt key := by
  unfold intern
  split <;> rfl

@[simp] lemma file_intern (g : FileHandle) : (st.intern p).2.file g = st.file g := by
  unfold intern
  split <;> rfl

@[simp] lemma nextHandle_intern : (st.intern p).2.nextHandle = st.nextHandle := by
  unfold intern
  split <;> rfl

@[simp] lemma validatedAt_renamePath (src dst : RemotePath) :
    (st.renamePath src dst).validatedAt q = st.validatedAt q := by
  unfold renamePath
  split <;> rfl

@[simp] lemma negativeAt_renamePath (src dst : RemotePath) (key : NodeId × Str) :
    (st.renamePath src dst).negativeAt key = st.negativeAt key := by
  unfold renamePath
  split <;> rfl

@[simp] lemma file_renamePath (src dst : RemotePath) (g : FileHandle) :
    (st.renamePath src dst).file g = st.file g := by
  unfold renamePath
  split <;> rfl

@[simp] lemma nextHandle_renamePath (src dst : RemotePath) :
    (st.renamePath src dst).nextHandle = st.nextHandle := by
  unfold renamePath
  split <;> rfl

end

/-! ## The registry invariant -/

/-- What the registry keeps whatever is called. -/
structure Wf (st : State) : Prop where
  node_path : ∀ p n, st.pathToNode.lookup p = some n → st.path n = some p
  path_lt : ∀ n p, st.path n = some p → n.val < st.nextNode
  negative_lt : ∀ n name t, st.negativeAt (n, name) = some t → n.val < st.nextNode
  handle_lt : ∀ h f, st.file h = some f → h.val < st.nextHandle

variable {st : State}

lemma wf_new (root : RemotePath) : Wf (State.new root) where
  node_path p n h := by
    simp only [State.new, FMap.lookup_insert_eq_ite] at h
    split at h
    · next hp =>
        cases h
        rw [hp]
        exact AList.lookup_insert _
    · cases h
  path_lt n p h := by
    simp only [State.new, path, FMap.lookup_insert_eq_ite] at h
    split at h
    · next hn =>
        rw [hn]
        exact Nat.lt_succ_self _
    · cases h
  negative_lt n name t h := by cases h
  handle_lt h f hf := by cases hf

/-- The node `intern` returns has the path. -/
lemma Wf.path_intern_self (hw : Wf st) (p : RemotePath) :
    (st.intern p).2.path (st.intern p).1 = some p := by
  unfold intern
  split
  · next n hn => exact hw.node_path p n hn
  · exact AList.lookup_insert _

/-- `intern` keeps the path of every known node. -/
lemma Wf.path_intern (hw : Wf st) (p : RemotePath) {n : NodeId} {q : RemotePath}
    (h : st.path n = some q) : (st.intern p).2.path n = some q := by
  unfold intern
  split
  · exact h
  · have hne : n ≠ ⟨st.nextNode⟩ := by
      rintro rfl
      exact absurd (hw.path_lt _ q h) (lt_irrefl _)
    simp only [path]
    rw [AList.lookup_insert_ne hne]
    exact h

/-- A path in the registry after `intern` was there before, or is the interned one. -/
lemma path_intern_cases {p q : RemotePath} {n : NodeId} (h : (st.intern p).2.path n = some q) :
    st.path n = some q ∨ (q = p ∧ n = ⟨st.nextNode⟩) := by
  unfold intern at h
  split at h
  · exact .inl h
  · simp only [path, FMap.lookup_insert_eq_ite] at h
    split at h
    · next hn =>
        cases h
        exact .inr ⟨rfl, hn⟩
    · exact .inl h

/-- `intern` gives a path to new nodes only. -/
lemma path_of_intern {p q : RemotePath} {n : NodeId} (hn : n.val < st.nextNode)
    (h : (st.intern p).2.path n = some q) : st.path n = some q := by
  rcases path_intern_cases h with hold | ⟨-, rfl⟩
  · exact hold
  · exact absurd hn (lt_irrefl _)

lemma nextNode_le_intern (p : RemotePath) (st : State) :
    st.nextNode ≤ (st.intern p).2.nextNode := by
  unfold intern
  split
  · exact le_refl _
  · exact Nat.le_succ _

lemma Wf.intern (hw : Wf st) (p : RemotePath) : Wf (st.intern p).2 where
  node_path q n h := by
    unfold State.intern at h ⊢
    split at h
    · exact hw.node_path q n h
    · simp only [FMap.lookup_insert_eq_ite] at h
      simp only [path, FMap.lookup_insert_eq_ite]
      split at h
      · next hq =>
          cases h
          simp [hq]
      · next hq =>
          have hold := hw.node_path q n h
          have hne : n ≠ ⟨st.nextNode⟩ := by
            rintro rfl
            exact absurd (hw.path_lt _ q hold) (lt_irrefl _)
          rw [if_neg hne]
          exact hold
  path_lt n q h := by
    rcases path_intern_cases h with hold | ⟨rfl, rfl⟩
    · exact lt_of_lt_of_le (hw.path_lt n q hold) (nextNode_le_intern p st)
    · -- the counter only stays where the path was already known
      unfold State.intern at h ⊢
      split at h
      · exact absurd (hw.path_lt _ _ h) (lt_irrefl _)
      · exact Nat.lt_succ_self _
  negative_lt n name t h := by
    rw [negativeAt_intern] at h
    exact lt_of_lt_of_le (hw.negative_lt n name t h) (nextNode_le_intern p st)
  handle_lt h f hf := by
    rw [file_intern] at hf
    rw [nextHandle_intern]
    exact hw.handle_lt h f hf

/-- The paths of the nodes after a rename: only the node of `src` has moved. -/
lemma path_renamePath (src dst : RemotePath) (n : NodeId) :
    (st.renamePath src dst).path n =
      if st.pathToNode.lookup src = some n then some dst else st.path n := by
  unfold renamePath
  cases hsrc : st.pathToNode.lookup src with
  | none => simp
  | some m =>
      simp only [path, FMap.lookup_insert_eq_ite, Option.some.injEq, eq_comm]

lemma Wf.renamePath (hw : Wf st) (src dst : RemotePath) : Wf (st.renamePath src dst) where
  node_path q n h := by
    rw [path_renamePath]
    unfold State.renamePath at h
    cases hsrc : st.pathToNode.lookup src with
    | none =>
        rw [hsrc] at h
        rw [if_neg (by simp)]
        exact hw.node_path q n h
    | some m =>
        rw [hsrc] at h
        simp only [FMap.lookup_insert_eq_ite, FMap.lookup_erase_eq_ite] at h
        split at h
        · next hq =>
            rw [hq, if_pos h]
        · split at h
          · cases h
          · next hq =>
              have hold := hw.node_path q n h
              rw [if_neg]
              · exact hold
              · -- two paths of one node would be equal
                intro hm
                rw [hw.node_path src n (hsrc.trans hm)] at hold
                exact hq (Option.some.inj hold).symm
  path_lt n q h := by
    have hnext : (st.renamePath src dst).nextNode = st.nextNode := by
      unfold State.renamePath
      split <;> rfl
    rw [hnext]
    rw [path_renamePath] at h
    split at h
    · next hn => exact hw.path_lt n src (hw.node_path src n hn)
    · exact hw.path_lt n q h
  negative_lt n name t h := by
    have hnext : (st.renamePath src dst).nextNode = st.nextNode := by
      unfold State.renamePath
      split <;> rfl
    rw [hnext]
    rw [negativeAt_renamePath] at h
    exact hw.negative_lt n name t h
  handle_lt h f hf := by
    rw [file_renamePath] at hf
    rw [nextHandle_renamePath]
    exact hw.handle_lt h f hf

lemma Wf.stamp (hw : Wf st) (p : RemotePath) (t : ℕ) : Wf (st.stamp p t) :=
  ⟨hw.node_path, hw.path_lt, hw.negative_lt, hw.handle_lt⟩

lemma Wf.unstamp (hw : Wf st) (p : RemotePath) : Wf (st.unstamp p) :=
  ⟨hw.node_path, hw.path_lt, hw.negative_lt, hw.handle_lt⟩

/-- Only known nodes are negated: a call resolves the parent first. -/
lemma Wf.negate (hw : Wf st) {n : NodeId} {p : RemotePath} (hn : st.path n = some p) (name : Str)
    (t : ℕ) : Wf (st.negate n name t) where
  node_path := hw.node_path
  path_lt := hw.path_lt
  negative_lt m x t' h := by
    rw [negativeAt_negate] at h
    split at h
    · next hkey =>
        cases hkey
        exact hw.path_lt n p hn
    · exact hw.negative_lt m x t' h
  handle_lt := hw.handle_lt

lemma Wf.unnegate (hw : Wf st) (n : NodeId) (name : Str) : Wf (st.unnegate n name) where
  node_path := hw.node_path
  path_lt := hw.path_lt
  negative_lt m x t h := by
    rw [negativeAt_unnegate] at h
    split at h
    · cases h
    · exact hw.negative_lt m x t h
  handle_lt := hw.handle_lt

lemma Wf.openHandle (hw : Wf st) (n : NodeId) (p : RemotePath) : Wf (st.openHandle n p).2 where
  node_path := hw.node_path
  path_lt := hw.path_lt
  negative_lt := hw.negative_lt
  handle_lt h f hf := by
    rw [file_openHandle] at hf
    split at hf
    · next hh =>
        rw [hh]
        exact Nat.lt_succ_self _
    · exact Nat.lt_succ_of_lt (hw.handle_lt h f hf)

lemma Wf.close (hw : Wf st) (h : FileHandle) : Wf (st.close h) where
  node_path := hw.node_path
  path_lt := hw.path_lt
  negative_lt := hw.negative_lt
  handle_lt g f hf := by
    rw [file_close] at hf
    split at hf
    · cases hf
    · exact hw.handle_lt g f hf

end State

end CacheShfs
