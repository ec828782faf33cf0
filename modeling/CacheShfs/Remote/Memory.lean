import CacheShfs.Remote.Spec
import Mathlib.Data.List.Dedup

/-!
# A remote in memory

A remote whose state is a tree held in memory, in the manner of the mock of
`crates/cacheshfs-core/src/vfs.rs`.  It satisfies every assumption of `Remote.Spec`, so those
assumptions can be met together, and the concrete runs of this development are runs over it.

The tree is a function; `keys` lists the paths it is defined on, so that a directory can be
listed.  File times are set by `setattr` only: writing keeps them, as a server with a coarse
clock does.
-/

namespace CacheShfs

open Slice

/-- A file that a signed 64-bit offset can address. -/
def RemoteNode.Fits : RemoteNode → Prop
  | .dir => True
  | .file content _ => content.length ≤ 2 ^ 63

instance (node : RemoteNode) : Decidable node.Fits :=
  match node with
  | .dir => isTrue trivial
  | .file content _ => inferInstanceAs (Decidable (content.length ≤ 2 ^ 63))

lemma RemoteNode.empty_fits : (RemoteNode.file [] none).Fits := Nat.zero_le _

/-- The state of the in-memory remote. -/
structure Memory where
  tree : Tree
  keys : List Str
  mem_keys : ∀ q, tree q ≠ none → q ∈ keys
  fits : ∀ q node, tree q = some node → node.Fits

namespace Memory

/-- The tree with only a root directory. -/
def empty : Memory where
  tree := Function.update (fun _ => none) ['/'] (some .dir)
  keys := [['/']]
  mem_keys q h := by
    by_cases hq : q = ['/']
    · simp [hq]
    · simp [Function.update_of_ne hq] at h
  fits q node h := by
    by_cases hq : q = ['/']
    · rw [hq, Function.update_self] at h
      cases h
      trivial
    · simp [Function.update_of_ne hq] at h

/-- Put a node at a path. -/
def put (p : Str) (node : RemoteNode) (h : node.Fits) (r : Memory) : Memory where
  tree := Function.update r.tree p (some node)
  keys := p :: r.keys
  mem_keys q hq := by
    by_cases hqp : q = p
    · simp [hqp]
    · rw [Function.update_of_ne hqp] at hq
      exact List.mem_cons_of_mem _ (r.mem_keys q hq)
  fits q n hq := by
    by_cases hqp : q = p
    · rw [hqp, Function.update_self] at hq
      cases hq
      exact h
    · rw [Function.update_of_ne hqp] at hq
      exact r.fits q n hq

/-- Delete the node at a path. -/
def delete (p : Str) (r : Memory) : Memory where
  tree := Function.update r.tree p none
  keys := r.keys
  mem_keys q hq := by
    by_cases hqp : q = p
    · simp [hqp] at hq
    · rw [Function.update_of_ne hqp] at hq
      exact r.mem_keys q hq
  fits q n hq := by
    by_cases hqp : q = p
    · simp [hqp] at hq
    · rw [Function.update_of_ne hqp] at hq
      exact r.fits q n hq

/-- A node of the renamed tree was in the tree before, at the path it was moved from. -/
lemma rename_origin {t : Tree} {src dst q : Str} {node : RemoteNode}
    (h : t.rename src dst q = some node) :
    (q = dst ∧ t src = some node) ∨
      (Below dst q ∧ t (src ++ q.drop dst.length) = some node) ∨ t q = some node := by
  unfold Tree.rename at h
  split at h
  · next hq => exact .inl ⟨hq, h⟩
  · split at h
    · next hb => exact .inr (.inl ⟨hb, h⟩)
    · split at h
      · cases h
      · exact .inr (.inr h)

/-- Move a path with everything below it. -/
def move (src dst : Str) (r : Memory) : Memory where
  tree := r.tree.rename src dst
  keys := dst :: (r.keys ++ r.keys.map fun q => dst ++ q.drop src.length)
  mem_keys q hq := by
    obtain ⟨node, hnode⟩ := Option.ne_none_iff_exists'.mp hq
    rcases rename_origin hnode with ⟨rfl, -⟩ | ⟨hb, hmem⟩ | hmem
    · simp
    · have hkey := r.mem_keys _ (by rw [hmem]; simp)
      obtain ⟨rest, rfl⟩ := hb
      refine List.mem_cons_of_mem _ (List.mem_append_right _ (List.mem_map.mpr ⟨_, hkey, ?_⟩))
      simp
    · exact List.mem_cons_of_mem _ (List.mem_append_left _ (r.mem_keys q (by rw [hmem]; simp)))
  fits q node hq := by
    rcases rename_origin hq with ⟨-, h⟩ | ⟨-, h⟩ | h <;> exact r.fits _ node h

/-! ## The calls -/

/-- The attributes reported for a node. -/
def attributes : RemoteNode → FileAttributes
  | .dir => ⟨.directory, 0, 0o755, 0, 0, none, none, none⟩
  | .file content modified =>
      ⟨.file, UInt64.ofNat content.length, 0o644, 0, 0, modified, none, none⟩

lemma describes_attributes {node : RemoteNode} (h : node.Fits) :
    Describes (attributes node) node := by
  cases node with
  | dir => rfl
  | file content modified =>
      refine ⟨rfl, ?_, rfl⟩
      have hlt : content.length < 2 ^ 64 := lt_of_le_of_lt h (by decide)
      simpa [attributes] using Nat.mod_eq_of_lt hlt

/-- The directory of a path. -/
def parentKey (p : Str) : Str :=
  let dir := trimEndSlashes (p.rdropWhile (· ≠ '/'))
  if dir = [] then ['/'] else dir

def stat (p : RemotePath) (r : Memory) : Except Error FileAttributes × Memory :=
  match r.tree p.asStr with
  | some node => (.ok (attributes node), r)
  | none => (.error .notFound, r)

/-- The name under which `q` is a child of the directory `p`. -/
def childName (p q : Str) : Option Str :=
  let stem := trimEndSlashes p ++ ['/']
  if stem <+: q ∧ ValidComponent (q.drop stem.length) then some (q.drop stem.length) else none

/-- The names in the directory `p`. -/
def names (p : Str) (r : Memory) : List Str :=
  ((r.keys.filter fun q => (r.tree q).isSome).filterMap (childName p)).dedup

def readDir (p : RemotePath) (r : Memory) :
    Except Error (List RemoteDirectoryEntry) × Memory :=
  match r.tree p.asStr with
  | some .dir =>
      (.ok ((r.names p.asStr).filterMap fun name =>
        (r.tree (childKey p.asStr name)).map fun node => ⟨name, attributes node⟩), r)
  | some (.file _ _) => (.error (.remoteBackend "not a directory"), r)
  | none => (.error .notFound, r)

def read (p : RemotePath) (offset size : ℕ) (r : Memory) : Except Error Bytes × Memory :=
  match r.tree p.asStr with
  | some (.file content _) => (.ok (slice content offset (offset + size)), r)
  | some .dir => (.error (.remoteBackend "is a directory"), r)
  | none => (.error .notFound, r)

/-- The bytes of a file after a write, with zeros in a gap. -/
def overwrite (content : Bytes) (offset : ℕ) (data : Bytes) : Bytes :=
  content.take offset ++ List.replicate (offset - content.length) 0 ++ data ++
    content.drop (offset + data.length)

def write (p : RemotePath) (offset : UInt64) (data : Bytes) (r : Memory) :
    Except Error UInt32 × Memory :=
  match r.tree p.asStr with
  | some (.file content modified) =>
      if h : (RemoteNode.file (overwrite content offset.toNat data) modified).Fits then
        (.ok (UInt32.ofNat data.length), r.put p.asStr _ h)
      else (.error (.remoteBackend "file too large"), r)
  | some .dir => (.error (.remoteBackend "is a directory"), r)
  | none => (.error .notFound, r)

def create (p : RemotePath) (_mode : UInt32) (r : Memory) : Except Error FileAttributes × Memory :=
  if r.tree p.asStr ≠ none then (.error .alreadyExists, r)
  else if r.tree (parentKey p.asStr) ≠ some .dir then (.error .notFound, r)
  else (.ok (attributes (.file [] none)),
    r.put p.asStr (.file [] none) (by simp [RemoteNode.Fits]))

def mkdir (p : RemotePath) (_mode : UInt32) (r : Memory) : Except Error FileAttributes × Memory :=
  if r.tree p.asStr ≠ none then (.error .alreadyExists, r)
  else if r.tree (parentKey p.asStr) ≠ some .dir then (.error .notFound, r)
  else (.ok (attributes .dir), r.put p.asStr .dir trivial)

def unlink (p : RemotePath) (r : Memory) : Except Error Unit × Memory :=
  match r.tree p.asStr with
  | some (.file _ _) => (.ok (), r.delete p.asStr)
  | some .dir => (.error (.remoteBackend "is a directory"), r)
  | none => (.error .notFound, r)

/-- Something lies below a path. -/
def Occupied (p : Str) (r : Memory) : Prop := ∃ q ∈ r.keys, Below p q ∧ r.tree q ≠ none

instance (p : Str) (r : Memory) : Decidable (r.Occupied p) :=
  inferInstanceAs (Decidable (∃ q ∈ r.keys, _))

lemma below_of_not_occupied {p q : Str} {r : Memory} (h : ¬ r.Occupied p) (hb : Below p q) :
    r.tree q = none := by
  by_contra hne
  exact h ⟨q, r.mem_keys q hne, hb, hne⟩

def rmdir (p : RemotePath) (r : Memory) : Except Error Unit × Memory :=
  match r.tree p.asStr with
  | some .dir =>
      if r.Occupied p.asStr then (.error (.remoteBackend "directory not empty"), r)
      else (.ok (), r.delete p.asStr)
  | some (.file _ _) => (.error (.remoteBackend "not a directory"), r)
  | none => (.error .notFound, r)

/-- The rename a POSIX server performs: the target may be replaced by something of its own kind,
if nothing lies below it. -/
def rename (src dst : RemotePath) (r : Memory) : Except Error Unit × Memory :=
  match r.tree src.asStr with
  | some node =>
      if src = dst then (.ok (), r)
      else if Below src.asStr dst.asStr ∨ r.Occupied dst.asStr ∨
          (r.tree dst.asStr).any (fun old => decide (old.kind ≠ node.kind)) then
        (.error (.remoteBackend "cannot rename"), r)
      else (.ok (), r.move src.asStr dst.asStr)
  | none => (.error .notFound, r)

/-- The node after `setattr`. -/
def setTo (a : SetAttributes) : RemoteNode → RemoteNode
  | .dir => .dir
  | .file content modified =>
      .file (resize content a.size) (a.modifiedUnixSeconds.or modified)

def setattr (p : RemotePath) (a : SetAttributes) (r : Memory) :
    Except Error FileAttributes × Memory :=
  match r.tree p.asStr with
  | some node =>
      if h : (setTo a node).Fits then (.ok (attributes (setTo a node)), r.put p.asStr _ h)
      else (.error (.remoteBackend "file too large"), r)
  | none => (.error .notFound, r)

/-- The in-memory remote. -/
def filesystem : RemoteFilesystem Memory where
  stat := stat
  readDir := readDir
  read := read
  write := write
  create := create
  mkdir := mkdir
  unlink := unlink
  rmdir := rmdir
  rename := rename
  setattr := setattr

/-! ## The contract -/

lemma honestReads : HonestReads filesystem tree where
  view_read p o n r := by
    simp only [filesystem, read]
    split <;> rfl
  read_file p o n r f m h := by
    refine ⟨slice f o (o + n), by simp [filesystem, read, h], List.prefix_refl _, ?_⟩
    intro hlt hn hnil
    have hlen := congrArg List.length hnil
    rw [length_slice, List.length_nil] at hlen
    omega

/-- A key with a child's name is that child's key. -/
lemma childKey_of_childName {p q name : Str} (h : childName p q = some name) :
    ValidComponent name ∧ q = childKey p name := by
  simp only [childName] at h
  split at h
  · next hcond =>
      cases h
      obtain ⟨⟨rest, rfl⟩, hvalid⟩ := hcond
      rw [List.drop_left] at hvalid ⊢
      exact ⟨hvalid, by simp [childKey]⟩
  · cases h

lemma childName_childKey {p name : Str} (h : ValidComponent name) :
    childName p (childKey p name) = some name := by
  have hkey : childKey p name = (trimEndSlashes p ++ ['/']) ++ name := by simp [childKey]
  simp only [childName]
  rw [hkey, List.drop_left, if_pos ⟨List.prefix_append _ _, h⟩]

lemma mem_names {p name : Str} {r : Memory} :
    name ∈ r.names p ↔ ValidComponent name ∧ r.tree (childKey p name) ≠ none := by
  simp only [names, List.mem_dedup, List.mem_filterMap, List.mem_filter]
  constructor
  · rintro ⟨q, ⟨-, hsome⟩, hname⟩
    obtain ⟨hvalid, rfl⟩ := childKey_of_childName hname
    exact ⟨hvalid, by simpa [Option.isSome_iff_ne_none] using hsome⟩
  · rintro ⟨hvalid, hne⟩
    exact ⟨_, ⟨r.mem_keys _ hne, by simpa [Option.isSome_iff_ne_none] using hne⟩,
      childName_childKey hvalid⟩

/-- What a successful listing holds. -/
lemma readDir_eq {p : RemotePath} {r : Memory} {entries : List RemoteDirectoryEntry}
    (h : (filesystem.readDir p r).1 = .ok entries) :
    r.tree p.asStr = some .dir ∧ entries = (r.names p.asStr).filterMap fun name =>
      (r.tree (childKey p.asStr name)).map fun node => ⟨name, attributes node⟩ := by
  simp only [filesystem, readDir] at h
  split at h
  · next hdir => exact ⟨hdir, (Except.ok.inj h).symm⟩
  · cases h
  · cases h

lemma readDir_names {p : RemotePath} {r : Memory} {entries : List RemoteDirectoryEntry}
    (h : (filesystem.readDir p r).1 = .ok entries) :
    entries.map RemoteDirectoryEntry.name = r.names p.asStr := by
  rw [(readDir_eq h).2, List.map_filterMap]
  conv_rhs => rw [← List.filterMap_some (l := r.names p.asStr)]
  refine List.filterMap_congr fun name hname => ?_
  obtain ⟨node, hnode⟩ := Option.ne_none_iff_exists'.mp (mem_names.mp hname).2
  simp [hnode]

lemma statsTree : StatsTree filesystem tree where
  toHonestReads := honestReads
  view_stat p r := by
    simp only [filesystem, stat]
    split <;> rfl
  view_readDir p r := by
    simp only [filesystem, readDir]
    split <;> rfl
  stat_some p r node h :=
    ⟨attributes node, by simp [filesystem, stat, h], describes_attributes (r.fits _ node h)⟩
  stat_none p r h := by simp [filesystem, stat, h]
  read_other p o n r h := by
    simp only [filesystem, read]
    split
    · next f m hf => exact absurd hf (h f m)
    · exact ⟨_, rfl⟩
    · exact ⟨_, rfl⟩
  readDir_reachable p r message := by
    simp only [filesystem, readDir]
    split <;> simp

lemma answers : Answers filesystem tree where
  toStatsTree := statsTree
  lists p r entries h := by
    refine ⟨(readDir_eq h).1, fun e he _ => ?_⟩
    rw [(readDir_eq h).2] at he
    obtain ⟨name, -, hname⟩ := List.mem_filterMap.mp he
    obtain ⟨node, hnode, rfl⟩ := Option.map_eq_some_iff.mp hname
    exact ⟨node, hnode, describes_attributes (r.fits _ node hnode)⟩

lemma listsChildren : ListsChildren filesystem tree where
  names_valid p r entries h e he _ _ := by
    have hmem : e.name ∈ entries.map RemoteDirectoryEntry.name := List.mem_map_of_mem he
    rw [readDir_names h] at hmem
    exact (mem_names.mp hmem).1
  names_nodup p r entries h := by
    rw [readDir_names h]
    exact (List.nodup_dedup _).filter _
  names_complete p r entries h name hvalid hne := by
    rw [readDir_names h]
    exact mem_names.mpr ⟨hvalid, hne⟩

lemma setTo_spec (a : SetAttributes) (node : RemoteNode) : SetTo a node (setTo a node) := by
  cases node with
  | dir => rfl
  | file content modified => exact ⟨_, rfl⟩

/-- What a call that succeeds does. -/
lemma does (m : Mutation) (r : Memory) : m.Does filesystem tree r := by
  cases m with
  | write p o d =>
      intro n h
      simp only [filesystem, write] at h ⊢
      split at h
      · next f m hf =>
          split at h
          · next hfits => exact ⟨f, m, overwrite f o.toNat d, m, hf, by simp [hfits, put]⟩
          · cases h
      · cases h
      · cases h
  | create p mode =>
      intro attrs h
      simp only [filesystem, create] at h ⊢
      split at h
      · cases h
      · next hnone =>
          split at h
          · cases h
          · next hdir =>
              cases h
              exact ⟨[], none, not_not.mp hnone, describes_attributes (by simp [RemoteNode.Fits]),
                by simp [hnone, hdir, put]⟩
  | mkdir p mode =>
      intro attrs h
      simp only [filesystem, mkdir] at h ⊢
      split at h
      · cases h
      · next hnone =>
          split at h
          · cases h
          · next hdir =>
              cases h
              exact ⟨not_not.mp hnone, describes_attributes trivial, by simp [hnone, hdir, put]⟩
  | unlink p =>
      intro h
      simp only [filesystem, unlink] at h ⊢
      split at h
      · next f m hf => exact ⟨f, m, hf, rfl⟩
      · cases h
      · cases h
  | rmdir p =>
      intro h
      simp only [filesystem, rmdir] at h ⊢
      split at h
      · next hdir =>
          split at h
          · cases h
          · next hfree =>
              exact ⟨hdir, fun q => below_of_not_occupied hfree, by simp [hfree, delete]⟩
      · cases h
      · cases h
  | rename src dst =>
      intro h
      simp only [filesystem, rename] at h ⊢
      split at h
      · next node hnode =>
          split at h
          · next heq =>
              subst heq
              exact ⟨⟨node, hnode⟩, not_below_self _, fun hne => absurd rfl hne, by simp⟩
          · next hne =>
              split at h
              · cases h
              · next hok =>
                  obtain ⟨hbelow, hfree, -⟩ : ¬ Below src.asStr dst.asStr ∧
                      ¬ r.Occupied dst.asStr ∧ _ := by simpa only [not_or] using hok
                  exact ⟨⟨node, hnode⟩, hbelow, fun _ q => below_of_not_occupied hfree,
                    by simp only [if_neg hne, if_neg hok, move]⟩
      · cases h
  | setattr p a =>
      intro attrs h
      simp only [filesystem, setattr] at h ⊢
      split at h
      · next node hnode =>
          split at h
          · next hfits =>
              cases h
              exact ⟨node, setTo a node, hnode, setTo_spec a node, describes_attributes hfits,
                by simp [hfits, put]⟩
          · cases h
      · cases h

/-- A call that fails changes nothing. -/
lemma refuses (m : Mutation) (r : Memory) {e : Error} (h : (m.run filesystem r).1 = .error e) :
    (m.run filesystem r).2 = r := by
  cases m with
  | write p o d =>
      replace h := Mutation.map_eq_error.mp h
      simp only [Mutation.run, filesystem, write] at h ⊢
      split at h
      · split at h
        · cases h
        · next hfits => simp [hfits]
      · rfl
      · rfl
  | create p mode =>
      replace h := Mutation.map_eq_error.mp h
      simp only [Mutation.run, filesystem, create] at h ⊢
      split at h
      · next hsome => simp [hsome]
      · next hnone =>
          split at h
          · next hdir => simp [hnone, hdir]
          · cases h
  | mkdir p mode =>
      replace h := Mutation.map_eq_error.mp h
      simp only [Mutation.run, filesystem, mkdir] at h ⊢
      split at h
      · next hsome => simp [hsome]
      · next hnone =>
          split at h
          · next hdir => simp [hnone, hdir]
          · cases h
  | unlink p =>
      simp only [Mutation.run, filesystem, unlink] at h ⊢
      split at h
      · cases h
      · rfl
      · rfl
  | rmdir p =>
      simp only [Mutation.run, filesystem, rmdir] at h ⊢
      split at h
      · split at h
        · next hfree => simp [hfree]
        · cases h
      · rfl
      · rfl
  | rename src dst =>
      simp only [Mutation.run, filesystem, rename] at h ⊢
      split at h
      · split at h
        · cases h
        · next hne =>
            split at h
            · next hbad => simp only [if_neg hne, if_pos hbad]
            · cases h
      · rfl
  | setattr p a =>
      replace h := Mutation.map_eq_error.mp h
      simp only [Mutation.run, filesystem, setattr] at h ⊢
      split at h
      · split at h
        · cases h
        · next hfits => simp [hfits]
      · rfl

lemma mutates : Mutates filesystem tree where
  does := does
  refuses m r _ h := congrArg tree (refuses m r h)
  file_size r q _ _ h := r.fits q _ h

end Memory

end CacheShfs
