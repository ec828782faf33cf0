import CacheShfs.Store.Reopen

/-!
# Crashes

The process may die between any two file-system effects of an operation.  What the next session
then finds is the directory after the effects up to there, and its index must not refer to an
object that is not in `objects/`.

Every metadata operation persists the index before it deletes objects, and so does a download,
which puts the object in its place before the index names it.  The exception is the last section
of `fetch_chunk`: where it finds content of another version or chunk size it deletes the old
objects first, and until the index is persisted the one on disk refers to them.  A run in which
no read finds such content is safe at every point (`crash_safe`).
-/

namespace CacheShfs

open Machine

/-- The directory after some effects, the oldest first. -/
def Disk.after (d : Disk) (effects : List FsEffect) : Disk :=
  effects.foldl (fun d e => e.apply d) d

@[simp] lemma Disk.after_nil (d : Disk) : d.after [] = d := rfl

@[simp] lemma Disk.after_cons (d : Disk) (e : FsEffect) (effects : List FsEffect) :
    d.after (e :: effects) = (e.apply d).after effects := rfl

lemma Disk.after_append (d : Disk) (xs ys : List FsEffect) :
    d.after (xs ++ ys) = (d.after xs).after ys := by
  simp [Disk.after, List.foldl_append]

/-! ## Complete objects -/

/-- The bytes that a download loop has received so far. -/
inductive Received {ρ : Type} (R : RemoteFilesystem ρ) (path : RemotePath) (start len : ℕ) :
    Bytes → Prop
  | nil : Received R path start len []
  | more {b data : Bytes} {r r' : ρ} (h : Received R path start len b) (hlt : b.length < len)
      (hread : R.read path (start + b.length) (Store.want len b.length) r = (.ok data, r')) :
      Received R path start len (b ++ data)

/-- The bytes of chunk `k` under a label, from a download that has come to its end: it has all
bytes, or the remote has no more. -/
def Downloaded {ρ : Type} (R : RemoteFilesystem ρ) (l : Label) (k : ℕ) (b : Bytes) : Prop :=
  ∃ path, let len := min (l.size.toNat - k * l.chunkSize) l.chunkSize
    Received R path (k * l.chunkSize) len b ∧
      (len ≤ b.length ∨ ∃ r r', R.read path (k * l.chunkSize + b.length)
        (Store.want len b.length) r = (.ok [], r'))

/-- **Every object that `index.json` refers to is in `objects/`**, and holds a whole download. -/
def Disk.Complete {ρ : Type} (R : RemoteFilesystem ρ) (d : Disk) : Prop :=
  ∀ key c o, (d.index.getD Index.empty).content key = some c → o ∈ contentObjects c →
    ∃ k b, c.chunks.lookup k = some o ∧ d.objects.lookup o = some b ∧ Downloaded R c.label k b

/-! ## Effects -/

namespace Store

variable {G : Str → Label → ℕ → Bytes → Prop} {s s' s'' : Store}

/-- The effects by which `s` has become `s'`, the oldest first. -/
def effects (s s' : Store) : List FsEffect :=
  (s'.journal.take (s'.journal.length - s.journal.length)).reverse

/-- `s'` is reached from `s` by some effects, and a session can be opened on the directory after
any number of them. -/
def CrashSafe (G : Str → Label → ℕ → Bytes → Prop) (s s' : Store) : Prop :=
  ∃ effects, s'.journal = effects.reverse ++ s.journal ∧ s'.disk = s.disk.after effects ∧
    ∀ n, Reopens G (s.disk.after (effects.take n))

lemma effects_eq {effects : List FsEffect} (h : s'.journal = effects.reverse ++ s.journal) :
    s.effects s' = effects := by
  rw [Store.effects, h]
  simp

namespace CrashSafe

/-- No effects. -/
lemma quiet (hs : Sound G s) (hy : Synced s) (hjournal : s'.journal = s.journal)
    (hdisk : s'.disk = s.disk) : CrashSafe G s s' :=
  ⟨[], hjournal, hdisk, fun n => by simpa using hy.reopens hs⟩

/-- One effect, between two stores whose directories can be opened. -/
lemma single (hs : Sound G s) (hy : Synced s) (hs' : Sound G s') (hy' : Synced s') {e : FsEffect}
    (hjournal : s'.journal = e :: s.journal) (hdisk : s'.disk = e.apply s.disk) :
    CrashSafe G s s' := by
  refine ⟨[e], hjournal, hdisk, fun n => ?_⟩
  cases n with
  | zero => exact hy.reopens hs
  | succ n =>
      have hafter : s.disk.after ([e].take (n + 1)) = s'.disk := by
        rw [hdisk]
        simp
      rw [hafter]
      exact hy'.reopens hs'

lemma trans (h : CrashSafe G s s') (h' : CrashSafe G s' s'') : CrashSafe G s s'' := by
  obtain ⟨xs, hjournal, hdisk, hsafe⟩ := h
  obtain ⟨ys, hjournal', hdisk', hsafe'⟩ := h'
  refine ⟨xs ++ ys, ?_, ?_, fun n => ?_⟩
  · rw [hjournal', hjournal, List.reverse_append, List.append_assoc]
  · rw [hdisk', hdisk, Disk.after_append]
  · rcases Nat.lt_or_ge n xs.length with hlt | hge
    · rw [List.take_append_of_le_length hlt.le]
      exact hsafe n
    · rw [List.take_append, List.take_of_length_le hge, Disk.after_append, ← hdisk]
      exact hsafe' (n - xs.length)

end CrashSafe

lemma journal_removeObjects (objects : List ℕ) (s : Store) :
    (s.removeObjects objects).journal =
      (objects.map FsEffect.removeObject).reverse ++ s.journal := by
  induction objects generalizing s with
  | nil => rfl
  | cons o os ih =>
      have hrec := ih (s.emit (.removeObject o))
      simpa [removeObjects, emit] using hrec

lemma disk_removeObjects (objects : List ℕ) (s : Store) :
    (s.removeObjects objects).disk = s.disk.after (objects.map FsEffect.removeObject) := by
  induction objects generalizing s with
  | nil => rfl
  | cons o os ih =>
      have hrec := ih (s.emit (.removeObject o))
      simpa [removeObjects, emit] using hrec

/-- The index is persisted and then objects are deleted that it no longer refers to. -/
lemma crashSafe_persist (hs : Sound G s) (hy : Synced s) {index : Index} {orphans : List ℕ}
    (hs' : Sound G ((s.setIndex index).persist.removeObjects orphans))
    (hy' : Synced ((s.setIndex index).persist.removeObjects orphans)) :
    CrashSafe G s ((s.setIndex index).persist.removeObjects orphans) := by
  refine ⟨.writeIndex index :: orphans.map .removeObject, ?_, ?_, fun n => ?_⟩
  · rw [journal_removeObjects]
    simp [persist, emit, setIndex]
  · rw [disk_removeObjects]
    rfl
  · cases n with
    | zero => exact hy.reopens hs
    | succ n =>
        -- a part of the orphans has been deleted
        have hdisk : s.disk.after (((FsEffect.writeIndex index) ::
            orphans.map .removeObject).take (n + 1)) =
            ((s.setIndex index).persist.removeObjects (orphans.take n)).disk := by
          rw [disk_removeObjects, List.take_succ_cons, ← List.map_take]
          rfl
        rw [hdisk]
        refine reopens_of_agrees hs' hy' (by simp) fun key c k o hr => ?_
        obtain ⟨b, hb, -⟩ := hs'.good key c k o hr
        rw [object_removeObjects] at hb ⊢
        have hnot : o ∉ orphans := by
          intro ho
          rw [if_pos ho] at hb
          cases hb
        rw [if_neg hnot, lookup_removeObjects, if_neg fun ho => hnot (List.mem_of_mem_take ho)]
        rfl

/-! ## The metadata operations -/

section
variable (hs : Sound G s) (hy : Synced s)
include hs hy

lemma Sound.crashSafe_putAttrs (path : RemotePath) (attrs : FileAttributes) :
    CrashSafe G s (s.putAttrs path attrs) :=
  crashSafe_persist hs hy (hs.putAttrs path attrs) (hy.putAttrs path attrs)

lemma Sound.crashSafe_recordListing (parent : RemotePath)
    (children : List (Str × FileAttributes)) : CrashSafe G s (s.recordListing parent children) :=
  crashSafe_persist hs hy (hs.recordListing parent children) (hy.recordListing parent children)

lemma Sound.crashSafe_rename {src dst : RemotePath} (hs' : Sound G (s.rename src dst)) :
    CrashSafe G s (s.rename src dst) :=
  crashSafe_persist hs hy hs' (hy.rename src dst)

lemma Sound.crashSafe_invalidateChildren (path : RemotePath) :
    CrashSafe G s (s.invalidateChildren path) := by
  have hs' := hs.invalidateChildren path
  have hy' := hy.invalidateChildren path
  unfold Store.invalidateChildren at hs' hy' ⊢
  cases hlist : (s.index.listings.lookup path.asStr).isSome with
  | true =>
      rw [hlist] at hs' hy'
      exact .single hs hy hs' hy' rfl rfl
  | false => exact .quiet hs hy rfl rfl

lemma Sound.crashSafe_remove (path : RemotePath) : CrashSafe G s (s.remove path) := by
  have hs' := hs.remove path
  have hy' := hy.remove path
  unfold Store.remove at hs' hy' ⊢
  cases hlook : s.index.entries.lookup path.asStr with
  | some e =>
      rw [hlook] at hs' hy'
      exact crashSafe_persist hs hy hs' hy'
  | none =>
      -- there are no objects to delete
      rw [hlook] at hs' hy'
      cases hlist : (s.index.listings.lookup path.asStr).isSome with
      | true =>
          rw [hlist] at hs' hy'
          exact .single hs hy hs' hy' rfl rfl
      | false => exact .quiet hs hy rfl rfl

lemma Sound.crashSafe_invalidateContent (path : RemotePath) :
    CrashSafe G s (s.invalidateContent path) := by
  have hs' := hs.invalidateContent path
  have hy' := hy.invalidateContent path
  unfold Store.invalidateContent at hs' hy' ⊢
  cases hlook : s.index.entries.lookup path.asStr with
  | none => exact .quiet hs hy rfl rfl
  | some e =>
      simp only [hlook] at hs' hy' ⊢
      by_cases hobjects : e.objects = []
      · rw [hobjects]
        exact .quiet hs hy rfl rfl
      · simp only [persistIf, ne_eq, hobjects, not_false_eq_true, decide_true, if_true] at hs' hy' ⊢
        exact crashSafe_persist hs hy hs' hy'

end

end Store

/-! ## Downloads -/

namespace ReadTask

variable {ρ : Type} {R : RemoteFilesystem ρ} {a : ReadArgs} {w w' : StoreWorld ρ} {pc pc' : ReadPc}

/-- What a read has downloaded of the chunk that it fetches. -/
def Fetched (R : RemoteFilesystem ρ) (a : ReadArgs) (s : Store) : ReadPc → Prop
  | .fill chunk _ _ temp filled => ∃ b, s.disk.temps.lookup temp = some b ∧ b.length = filled ∧
      Received R a.path (chunk * s.chunkSize) (s.chunkLen a.attrs chunk) b
  | .install chunk _ _ temp => ∃ b, s.disk.temps.lookup temp = some b ∧
      Downloaded R (a.attrs.label s.chunkSize) chunk b
  | .record chunk _ object => ∃ b, s.object object = some b ∧
      Downloaded R (a.attrs.label s.chunkSize) chunk b
  | _ => True

lemma Steps.fetched (h : Steps R a w pc pc' w') (hf : Fetched R a w.store pc) :
    Fetched R a w'.store pc' := by
  cases h with
  | create =>
      refine ⟨[], ?_, rfl, .nil⟩
      exact AList.lookup_insert _
  | @arrived chunk rest object temp filled data conn hlt hread hdata =>
      obtain ⟨b, htemp, rfl, hrec⟩ := hf
      have hanswer : R.read a.path (chunk * w.store.chunkSize + b.length)
          (Store.want (w.store.chunkLen a.attrs chunk) b.length) w.conn.remote = (.ok data, _) :=
        Prod.ext (Conn.read_eq hread).1 rfl
      refine ⟨b ++ data, ?_, List.length_append, hrec.more hlt hanswer⟩
      show AList.lookup temp (AList.insert temp _ _) = _
      rw [AList.lookup_insert, htemp]
      rfl
  | @ended chunk rest object temp filled conn hlt hread =>
      obtain ⟨b, htemp, rfl, hrec⟩ := hf
      have hanswer := (Conn.read_eq hread).1
      exact ⟨b, htemp, a.path, hrec, .inr ⟨w.conn.remote, _, Prod.ext hanswer rfl⟩⟩
  | filled hle =>
      obtain ⟨b, htemp, rfl, hrec⟩ := hf
      exact ⟨b, htemp, a.path, hrec, .inl hle⟩
  | @install chunk rest object temp =>
      obtain ⟨b, htemp, hdown⟩ := hf
      refine ⟨b, ?_, hdown⟩
      rw [Store.object_install, if_pos rfl, htemp]
      rfl
  | _ => trivial

/-- The chunk that a read is fetching. -/
def fetching : ReadPc → Option ℕ
  | .alloc chunk _ => some chunk
  | .create chunk _ _ => some chunk
  | .fill chunk _ _ _ _ => some chunk
  | .install chunk _ _ _ => some chunk
  | .record chunk _ _ => some chunk
  | _ => none

/-- The content at the path of a read has the version and chunk size of the read, and the chunk
that it fetches is missing there. -/
structure OneVersion (a : ReadArgs) (s : Store) (pc : ReadPc) : Prop where
  label : ∀ c, s.content a.path.asStr = some c → c.label = a.attrs.label s.chunkSize
  missing : ∀ chunk, fetching pc = some chunk → s.cachedChunk a.path a.attrs chunk = none

lemma Steps.oneVersion (h : Steps R a w pc pc' w') (hv : OneVersion a w.store pc) :
    OneVersion a w'.store pc' := by
  cases h with
  | missed hmiss =>
      refine ⟨hv.label, fun chunk hchunk => ?_⟩
      cases hchunk
      exact hmiss
  | record =>
      refine ⟨fun c hc => ?_, nofun⟩
      rw [Store.content_recordChunk, if_pos rfl] at hc
      cases hc
      rw [Store.recordedContent_label, Store.recordChunk_chunkSize]
  | alloc => exact ⟨hv.label, hv.missing⟩
  | create => exact ⟨hv.label, hv.missing⟩
  | arrived _ _ _ => exact ⟨hv.label, hv.missing⟩
  | ended _ _ => exact ⟨hv.label, hv.missing⟩
  | filled _ => exact ⟨hv.label, hv.missing⟩
  | install => exact ⟨hv.label, hv.missing⟩
  | _ => exact ⟨hv.label, nofun⟩

/-- Recording the missing chunk of the one version deletes nothing. -/
lemma OneVersion.recordDeletes {s : Store} {chunk object : ℕ} {rest : List ℕ}
    (h : OneVersion a s (.record chunk rest object)) :
    Store.recordDeletes (a.attrs.label s.chunkSize) chunk
      ((s.entry a.path.asStr).getD ⟨.ofAttributes a.attrs, none⟩).content = [] := by
  have hmiss := h.missing chunk rfl
  unfold Store.cachedChunk at hmiss
  unfold Store.recordDeletes
  cases hentry : s.entry a.path.asStr with
  | none => rfl
  | some e =>
      simp only [Option.getD_some]
      cases he : e.content with
      | none => rfl
      | some c =>
          have hc : s.content a.path.asStr = some c := by
            rw [Store.content, hentry]
            exact he
          simp only [hc, h.label c hc, if_true] at hmiss ⊢
          rw [hmiss]
          rfl

lemma Steps.crashSafe {G : Str → Label → ℕ → Bytes → Prop} (h : Steps R a w pc pc' w')
    (hs : w.store.Sound G) (hy : w.store.Synced) (hs' : w'.store.Sound G) (hy' : w'.store.Synced)
    (hv : OneVersion a w.store pc) : Store.CrashSafe G w.store w'.store := by
  cases h with
  | create => exact .single hs hy hs' hy' rfl rfl
  | arrived _ _ _ => exact .single hs hy hs' hy' rfl rfl
  | refused _ _ => exact .single hs hy hs' hy' rfl rfl
  | install => exact .single hs hy hs' hy' rfl rfl
  | @record chunk _ object =>
      refine .single (e := .writeIndex (w.store.recordChunk a.path a.attrs chunk object).index)
        hs hy hs' hy' ?_ ?_
      · simp only [Store.recordChunk, hv.recordDeletes]
        rfl
      · simp only [Store.recordChunk, hv.recordDeletes]
        rfl
  | _ => exact .quiet hs hy rfl rfl

/-- The invariant of a read that a crash may interrupt. -/
structure Safe (R : RemoteFilesystem ρ) (a : ReadArgs) (s : Store) (x : ReadPc × StoreWorld ρ) :
    Prop where
  sound : x.2.store.Sound fun _ => Downloaded R
  synced : x.2.store.Synced
  owned : Owned x.1 x.2.store
  fetched : Fetched R a x.2.store x.1
  version : OneVersion a x.2.store x.1
  crash : s.CrashSafe (fun _ => Downloaded R) x.2.store

lemma Safe.next {s : Store} {x : ReadPc × StoreWorld ρ} (h : Safe R a s x) :
    Safe R a s (next R a x.2 x.1) := by
  have hstep := steps_next R a x.2 x.1
  have hsound := hstep.sound h.sound h.owned fun chunk rest object b hpc hb => by
    have hfetched := h.fetched
    rw [hpc] at hfetched
    obtain ⟨b', hb', hdown⟩ := hfetched
    rw [hb] at hb'
    cases hb'
    exact hdown
  have hsynced := hstep.synced h.synced h.owned
  exact ⟨hsound, hsynced, hstep.owned h.sound h.owned, hstep.fetched h.fetched,
    hstep.oneVersion h.version,
    h.crash.trans (hstep.crashSafe h.sound h.synced hsound hsynced h.version)⟩

end ReadTask

/-! ## Errors of a read -/

namespace ReadTask

variable {ρ : Type} {R : RemoteFilesystem ρ} {a : ReadArgs} {w w' : StoreWorld ρ} {pc pc' : ReadPc}

/-- The remote answers some read of the path with this error. -/
def Refuses (R : RemoteFilesystem ρ) (path : RemotePath) (e : Error) : Prop :=
  ∃ offset size r, (R.read path offset size r).1 = .error e

/-- A read has what it needs, whatever the bytes are: the chunks that it has passed are cached,
and the objects that it still has to open are there. -/
def Ready (R : RemoteFilesystem ρ) (a : ReadArgs) (s : Store) : ReadPc → Prop
  | .assemble chunks rest _ => ∀ k ∈ rest, ∃ o, chunks.lookup k = some o ∧ s.object o ≠ none
  | .done answer => ∀ e, answer = .error e → Refuses R a.path e
  | .check rest => Found a rest s
  | .alloc chunk rest => Found a (chunk :: rest) s
  | .create chunk rest _ => Found a (chunk :: rest) s
  | .fill chunk rest _ _ _ => Found a (chunk :: rest) s
  | .install chunk rest _ _ => Found a (chunk :: rest) s
  | .record chunk rest _ => Found a (chunk :: rest) s

lemma ready_start (a : ReadArgs) (s : Store) : Ready R a s (start a s.chunkSize).pc := by
  unfold start
  split
  · exact fun e he => by cases he
  · next hactive => exact ⟨hactive, [], rfl, by simp⟩

lemma Steps.ready {G : Str → Label → ℕ → Bytes → Prop} (h : Steps R a w pc pc' w')
    (hs : w.store.Sound G) (hready : Ready R a w.store pc) : Ready R a w'.store pc' := by
  -- an object of the snapshot can be opened
  have hopens : ∀ {chunks chunk rest data e},
      Ready R a w.store (.assemble chunks (chunk :: rest) data) →
      w.store.readPiece chunks a.offset.toNat a.stop chunk ≠ .error e := by
    intro chunks chunk rest data e hr herr
    obtain ⟨o, hlookup, hobject⟩ := hr chunk List.mem_cons_self
    obtain ⟨b, hb⟩ := Option.ne_none_iff_exists'.mp hobject
    simp [Store.readPiece, Store.readObject, hlookup, hb] at herr
  cases h with
  | found hcached => exact Found.found hready hcached
  | missed _ => exact hready
  | snapshot hmap =>
      obtain ⟨c, -, hmap', hall⟩ := Found.snapshot hready hs
      rw [hmap'] at hmap
      cases hmap
      intro k hk
      obtain ⟨o, b, hlookup, -, hobject, -⟩ := hall k hk
      exact ⟨o, hlookup, by rw [hobject]; exact Option.some_ne_none b⟩
  | noContent hmap =>
      obtain ⟨c, -, hmap', -⟩ := Found.snapshot hready hs
      rw [hmap'] at hmap
      cases hmap
  | alloc => exact Found.congr hready rfl fun _ => rfl
  | create => exact Found.congr hready rfl fun _ => rfl
  | arrived _ _ _ => exact Found.congr hready rfl fun _ => rfl
  | ended _ _ => exact hready
  | refused _ hread =>
      intro e he
      cases he
      exact ⟨_, _, _, (Conn.read_eq hread).1⟩
  | filled _ => exact hready
  | install => exact Found.congr hready rfl fun _ => rfl
  | record => exact Found.record hready _
  | opened _ => exact fun k hk => hready k (List.mem_cons_of_mem _ hk)
  | missing hpiece => exact absurd hpiece (hopens hready)
  | finished => exact fun e he => by cases he
  | idle => exact hready

/-- **A read fails with errors of the remote only**, if the objects of the index are there. -/
lemma read_refused {s : Store} (hs : s.Sound fun _ _ _ _ => True) {path : RemotePath}
    {attrs : FileAttributes} {offset : UInt64} {size : UInt32} {c : Conn ρ} {e : Error}
    (h : (s.read R path attrs offset size c).1 = .error e) : Refuses R path e := by
  have hruns := runs_read (R := R) (a := ⟨path, attrs, offset, size⟩) s c
  have hend := Runs.induction (P := fun x => x.2.store.Sound (fun _ _ _ _ => True) ∧
    Owned x.1 x.2.store ∧ Ready R ⟨path, attrs, offset, size⟩ x.2.store x.1) (fun x hx => ?_) hruns
    ⟨hs, owned_of_none (owns_start _ _) _, ready_start _ _⟩
  · exact hend.2.2 e h
  · have hstep := steps_next R ⟨path, attrs, offset, size⟩ x.2 x.1
    exact ⟨hstep.sound hx.1 hx.2.1 fun _ _ _ _ _ _ => trivial, hstep.owned hx.1 hx.2.1,
      hstep.ready hx.1 hx.2.2⟩

end ReadTask

/-! ## Runs with crashes -/

/-- An event of a run in which the process may die: `crash e done chunkSize` ends the session
after `done` effects of the operation `e`, and opens the next one. -/
inductive CrashEvent (ρ : Type)
  | live (e : SessionEvent ρ)
  | crash (e : StoreEvent ρ) (done : ℕ) (chunkSize : UInt64)

namespace StoreWorld

variable {ρ : Type} (R : RemoteFilesystem ρ)

/-- The directory when the process dies after `done` effects of an operation. -/
def crashDisk (w : StoreWorld ρ) (e : StoreEvent ρ) (done : ℕ) : Disk :=
  w.store.disk.after ((w.store.effects (w.step R e).store).take done)

/-- One event.  A crash leaves the remote as it was; `external` may follow. -/
def crashStep (w : StoreWorld ρ) : CrashEvent ρ → StoreWorld ρ
  | .live e => w.session R e
  | .crash e done chunkSize => { w with store := Store.new (w.crashDisk R e done) chunkSize }

/-- A read of at least one byte of a file finds no content of another version or chunk size. -/
def FindsOneVersion (w : StoreWorld ρ) : StoreEvent ρ → Prop
  | .read path attrs offset size => size = 0 ∨ attrs.size ≤ offset ∨
      ∀ c, w.store.content path.asStr = some c → c.label = attrs.label w.store.chunkSize
  | _ => True

/-- The same for the operation of an event, whether it comes to its end or not. -/
def EventFindsOneVersion (w : StoreWorld ρ) : CrashEvent ρ → Prop
  | .live (.op e) => w.FindsOneVersion e
  | .live (.reopen _) => True
  | .crash e _ _ => w.FindsOneVersion e

variable {R}

/-- What a session keeps of its directory in a run with crashes. -/
structure Recovers (R : RemoteFilesystem ρ) (s : Store) : Prop where
  sound : s.Sound fun _ => Downloaded R
  synced : s.Synced

lemma recovers_read {w : StoreWorld ρ} (h : Recovers R w.store) {path : RemotePath}
    {attrs : FileAttributes} {offset : UInt64} {size : UInt32}
    (hv : w.FindsOneVersion (.read path attrs offset size)) :
    w.store.CrashSafe (fun _ => Downloaded R)
        (w.store.read R path attrs offset size w.conn).2.1 ∧
      Recovers R (w.store.read R path attrs offset size w.conn).2.1 := by
  by_cases hactive : size = 0 ∨ attrs.size ≤ offset
  · have hsame : (w.store.read R path attrs offset size w.conn).2.1 = w.store := by
      rw [Store.read, if_pos hactive]
    rw [hsame]
    exact ⟨.quiet h.sound h.synced rfl rfl, h⟩
  · have hlabel : ∀ c, w.store.content path.asStr = some c →
        c.label = attrs.label w.store.chunkSize := by
      rcases hv with hzero | hend | hlabel
      · exact absurd (.inl hzero) hactive
      · exact absurd (.inr hend) hactive
      · exact hlabel
    have hruns := ReadTask.runs_read (R := R) (a := ⟨path, attrs, offset, size⟩) w.store w.conn
    have hstart : ReadTask.Safe R ⟨path, attrs, offset, size⟩ w.store
        ((ReadTask.start ⟨path, attrs, offset, size⟩ w.store.chunkSize).pc, ⟨w.store, w.conn⟩) := by
      rw [ReadTask.start, if_neg hactive]
      exact ⟨h.sound, h.synced, ReadTask.owned_of_none rfl _, trivial, ⟨hlabel, nofun⟩,
        .quiet h.sound h.synced rfl rfl⟩
    have hend := ReadTask.Runs.induction (fun x hx => hx.next) hruns hstart
    exact ⟨hend.crash, hend.sound, hend.synced⟩

/-- Every operation that finds one version is safe at every point, and at its end. -/
lemma recovers_step {w : StoreWorld ρ} (h : Recovers R w.store) {e : StoreEvent ρ}
    (hv : w.FindsOneVersion e) :
    w.store.CrashSafe (fun _ => Downloaded R) (w.step R e).store ∧
      Recovers R (w.step R e).store := by
  obtain ⟨hs, hy⟩ := h
  cases e with
  | putAttrs path attrs =>
      exact ⟨hs.crashSafe_putAttrs hy path attrs, hs.putAttrs path attrs, hy.putAttrs path attrs⟩
  | recordListing parent children =>
      exact ⟨hs.crashSafe_recordListing hy parent children, hs.recordListing parent children,
        hy.recordListing parent children⟩
  | invalidateContent path =>
      exact ⟨hs.crashSafe_invalidateContent hy path, hs.invalidateContent path,
        hy.invalidateContent path⟩
  | invalidateChildren path =>
      exact ⟨hs.crashSafe_invalidateChildren hy path, hs.invalidateChildren path,
        hy.invalidateChildren path⟩
  | remove path => exact ⟨hs.crashSafe_remove hy path, hs.remove path, hy.remove path⟩
  | rename src dst =>
      have hs' : (w.store.rename src dst).Sound fun _ => Downloaded R :=
        hs.rename (fun _ _ _ _ h => h) (fun _ _ _ _ _ h => h) fun _ _ _ _ _ _ _ _ h => h
      exact ⟨hs.crashSafe_rename hy hs', hs', hy.rename src dst⟩
  | read path attrs offset size => exact recovers_read ⟨hs, hy⟩ hv
  | readCached path offset size => exact ⟨.quiet hs hy rfl rfl, hs, hy⟩
  | external remote => exact ⟨.quiet hs hy rfl rfl, hs, hy⟩

/-- The next session can be opened on the directory after any number of effects. -/
lemma reopens_crashDisk {w : StoreWorld ρ} (h : Recovers R w.store) {e : StoreEvent ρ}
    (hv : w.FindsOneVersion e) (done : ℕ) :
    Store.Reopens (fun _ => Downloaded R) (w.crashDisk R e done) := by
  obtain ⟨effects, hjournal, -, hsafe⟩ := (recovers_step h hv).1
  rw [crashDisk, Store.effects_eq hjournal]
  exact hsafe done

lemma recovers_crashStep (w : StoreWorld ρ) (e : CrashEvent ρ) (hv : w.EventFindsOneVersion e)
    (h : Recovers R w.store) : Recovers R (w.crashStep R e).store := by
  cases e with
  | live e =>
      cases e with
      | op e => exact (recovers_step h hv).2
      | reopen chunkSize =>
          obtain ⟨hs, hy⟩ := h.synced.reopens h.sound chunkSize
          exact ⟨hs, hy⟩
  | crash e done chunkSize =>
      obtain ⟨hs, hy⟩ := reopens_crashDisk h hv done chunkSize
      exact ⟨hs, hy⟩

lemma complete_of_reopens {d : Disk} (h : Store.Reopens (fun _ => Downloaded R) d) :
    d.Complete R := by
  intro key c o hc ho
  have hs := (h 0).1
  obtain ⟨k, hk⟩ := (hs.mem_contentObjects hc).mp ho
  obtain ⟨b, hb, hdown⟩ := hs.good key c k o ⟨hc, hk⟩
  exact ⟨k, b, hk, hb, hdown⟩

/-- **The store survives crashes in runs that find one version.**  In every state of a run in
which each read finds no content of another version or chunk size, with any number of crashes
and restarts at any chunk sizes: wherever an operation of this kind is interrupted, every object
that the index on disk refers to is there and complete; and a read fails only with an error that
the remote answers. -/
theorem crash_safe (chunkSize : UInt64) (conn : Conn ρ) (es : List (CrashEvent ρ))
    (hes : AllSteps (crashStep R) EventFindsOneVersion (start chunkSize conn) es)
    (w : StoreWorld ρ) (hw : Visits (crashStep R) (start chunkSize conn) es w) :
    (∀ e, w.FindsOneVersion e → ∀ done, (w.crashDisk R e done).Complete R) ∧
    ∀ path attrs offset size e, (w.store.read R path attrs offset size w.conn).1 = .error e →
      ∃ o n r, (R.read path o n r).1 = .error e := by
  have hstart : Recovers R (start chunkSize conn).store :=
    ⟨Store.sound_new_empty chunkSize, Store.synced_new_empty chunkSize⟩
  have hrec : Recovers R w.store := visits_invariant recovers_crashStep hstart hes hw
  refine ⟨fun e he done => complete_of_reopens (reopens_crashDisk hrec he done), ?_⟩
  intro path attrs offset size e herr
  exact ReadTask.read_refused (hrec.sound.mono fun _ _ _ _ _ _ => trivial) herr

/-- Part of `/f` is cached, and the process dies while a new version drops it: the index has been
written, and the objects are still there. -/
def crashRun : List (CrashEvent Memory) :=
  [.live (.op (.read fileF (attrsF 5 1) 1 3)), .crash (.putAttrs fileF (attrsF 5 2)) 1 4]

theorem crash_safe_newVersion :
    let w := run (crashStep Memory.filesystem) (start 2 ⟨firstVersion, 0, []⟩) crashRun
    (∀ e, w.FindsOneVersion e → ∀ done, (w.crashDisk Memory.filesystem e done).Complete
      Memory.filesystem) ∧
    ∀ path attrs offset size e,
      (w.store.read Memory.filesystem path attrs offset size w.conn).1 = .error e →
      ∃ o n r, (Memory.filesystem.read path o n r).1 = .error e := by
  refine crash_safe 2 ⟨firstVersion, 0, []⟩ crashRun ⟨.inr (.inr fun c hc => ?_), trivial, trivial⟩
    _ ⟨crashRun, List.prefix_rfl, rfl⟩
  cases hc

/-- `/f` is cached in chunks of two bytes, and the directory is opened with chunks of four. -/
def resized : StoreWorld Memory :=
  run (crashStep Memory.filesystem) (start 2 ⟨firstVersion, 0, []⟩)
    [.live (.op (.read fileF (attrsF 5 1) 0 5)), .live (.reopen 4)]

/-- The process has died in the first read after that, and the old chunk size is back. -/
def resizedBack : StoreWorld Memory :=
  resized.crashStep Memory.filesystem (.crash (.read fileF (attrsF 5 1) 0 1) 4 2)

/-- The first read with another chunk size deletes the old objects before the index is written.
If the process dies in between, the index refers to objects that are gone, and with the old chunk
size the file cannot be read any more, although the remote has it. -/
theorem resize_crash_loses_object :
    ¬ (resized.crashDisk Memory.filesystem (.read fileF (attrsF 5 1) 0 1) 4).Complete
      Memory.filesystem ∧
    (resizedBack.store.read Memory.filesystem fileF (attrsF 5 1) 0 5 resizedBack.conn).1 =
      .error objectMissing := by
  constructor
  · intro h
    have hrefs : (((resized.crashDisk Memory.filesystem (.read fileF (attrsF 5 1) 0 1) 4).index.getD
        Index.empty).content ['/', 'f']).map contentObjects = some [2, 1, 0] := by decide
    obtain ⟨c, hc, hobjects⟩ := Option.map_eq_some_iff.mp hrefs
    obtain ⟨k, b, -, hb, -⟩ := h ['/', 'f'] c 2 hc (by rw [hobjects]; decide)
    have hgone : (resized.crashDisk Memory.filesystem (.read fileF (attrsF 5 1) 0 1)
        4).objects.lookup 2 = none := by decide
    rw [hgone] at hb
    cases hb
  · decide

end StoreWorld

end CacheShfs
