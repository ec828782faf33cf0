import CacheShfs.Vfs.AttrAge
import CacheShfs.Vfs.Identity
import CacheShfs.Vfs.Unreachable

/-!
# Hydrated online, read offline

An on-demand mount resolves a file, opens it and reads it in pieces; an offline mount is opened
on the same cache directory later.  What the reads have fetched stays in the cache while the file
keeps its version (`KeepsChunks`), the directory has the index of the running store (`Durable`),
and the offline mount assembles the same bytes (`hydrated_reads_offline`).

The exception is the empty file.  A read of it returns before anything is recorded, so there is no
content reference, and without one the offline mount knows nothing of the file's bytes.
-/

namespace CacheShfs

open Machine

namespace World

variable {ρ : Type} {R : RemoteFilesystem ρ} {w w' : World ρ}

/-! ## The cache directory of a mount -/

/-- The directory can be opened by the next session, and the chunk size is the configured one. -/
def Kept (w : World ρ) : Prop :=
  w.store.Durable ∧ w.store.chunkSize = max w.config.cacheChunkSize.toNat 1

lemma durable_outcome {call : Call} (h : Outcome R w call w') (hd : w.store.Durable) :
    w'.store.Durable := by
  have hop : ∀ (s : Store) (e : StoreEvent ρ), s.Durable →
      (StoreWorld.step R ⟨s, w.conn⟩ e).store.Durable := fun s e hs =>
    StoreWorld.durable_step ⟨s, w.conn⟩ e hs
  induction h with
  | lookupFound _ _ _ _ _ => exact hop _ (.putAttrs _ _) hd
  | lookupMissing _ _ _ => exact hop _ (.remove _) hd
  | getattrFound _ _ _ _ => exact hop _ (.putAttrs _ _) hd
  | getattrMissing _ _ _ => exact hop _ (.remove _) hd
  | listed _ _ _ _ _ => exact hop _ (.recordListing _ _) hd
  | listedPartly _ _ _ _ _ => exact hop _ (.recordListing _ _) hd
  | truncated _ _ _ => exact hop _ (.invalidateContent _) hd
  | readRejected _ _ _ ih => exact ih
  | readContent _ _ _ _ ih => exact ih.read _ _ _ _ _
  | wrote _ _ => exact hop _ (.invalidateContent _) hd
  | created _ _ _ => exact hop _ (.invalidateChildren _) (hop _ (.putAttrs _ _) hd)
  | madeDir _ _ => exact hop _ (.invalidateChildren _) (hop _ (.putAttrs _ _) hd)
  | unlinked _ _ => exact hop _ (.invalidateChildren _) (hop _ (.remove _) hd)
  | removedDir _ _ => exact hop _ (.invalidateChildren _) (hop _ (.remove _) hd)
  | renamed _ _ =>
      exact hop _ (.invalidateChildren _) (hop _ (.invalidateChildren _) (hop _ (.rename _ _) hd))
  | setattrDone _ _ _ => exact hop _ (.putAttrs _ _) hd
  | _ => exact hd

lemma chunkSize_outcome {call : Call} (h : Outcome R w call w') :
    w'.store.chunkSize = w.store.chunkSize := by
  induction h with
  | readRejected _ _ _ ih => exact ih
  | readContent _ _ _ _ ih => exact (Store.read_frame _ _ _ _ _ _).1.chunkSize.trans ih
  | unlinked _ _ => simp [forget]
  | removedDir _ _ => simp [forget]
  | _ => simp

lemma kept_outcome {call : Call} (h : Outcome R w call w') (hk : Kept w) : Kept w' := by
  refine ⟨durable_outcome h hk.1, ?_⟩
  rw [chunkSize_outcome h, (grows_outcome h).2]
  exact hk.2

lemma durable_step (w : World ρ) (e : Event ρ) (hd : w.store.Durable) :
    (w.step R e).store.Durable := by
  cases e with
  | call call => exact durable_outcome (outcome_exec R w call) hd
  | tick d => exact hd
  | external remote => exact hd
  | restart config => exact hd.2.reopens hd.1 config.cacheChunkSize

lemma kept_step (w : World ρ) (e : Event ρ) (hk : Kept w) : Kept (w.step R e) := by
  cases e with
  | call call => exact kept_outcome (outcome_exec R w call) hk
  | tick d => exact hk
  | external remote => exact hk
  | restart config => exact ⟨durable_step w (.restart config) hk.1, rfl⟩

lemma kept_run (config : Config) (conn : Conn ρ) (es : List (Event ρ)) :
    Kept (run (step R) (World.new config Disk.empty conn) es) :=
  invariant_of_step kept_step
    ⟨⟨Store.sound_new_empty config.cacheChunkSize, Store.synced_new_empty config.cacheChunkSize⟩,
      rfl⟩ es

lemma Kept.objectsExist (h : Kept w) : w.store.ObjectsExist := by
  intro key c o hc ho
  obtain ⟨k, hk⟩ := (h.1.1.mem_contentObjects hc).mp ho
  obtain ⟨b, hb, -⟩ := h.1.1.good key c k o ⟨hc, hk⟩
  rw [hb]
  exact Option.some_ne_none b

/-- A mount of the same directory with the same chunk size has the same cache. -/
lemma Kept.sameCache (h : Kept w) {config : Config}
    (hsize : config.cacheChunkSize = w.config.cacheChunkSize) {ρ' : Type} (conn : Conn ρ') :
    w.store.SameCache (World.new config w.store.disk conn).store where
  chunkSize := by
    rw [h.2, ← hsize]
    rfl
  entry := h.1.2.entry
  listing := h.1.2.listing
  object _ := rfl

/-! ## Resolving a file -/

section
variable (R)

/-- Look up a file from a directory, one name after the other. -/
def walk : List Str → NodeId → World ρ → Except Error NodeId × World ρ
  | [], n, w => (.ok n, w)
  | name :: names, n, w =>
      match w.lookup R n name with
      | (.ok metadata, w) => walk names metadata.node w
      | (.error e, w) => (.error e, w)

/-- What a session answers that resolves a file, opens it and reads from it. -/
def readAt (names : List Str) (offset : UInt64) (size : UInt32) (w : World ρ) :
    Except Error Bytes :=
  match w.walk R names .root with
  | (.error e, _) => .error e
  | (.ok n, w) =>
      match w.openFile R n { read := true } with
      | (.error e, _) => .error e
      | (.ok handle, w) => (w.read R handle offset size).1

end

/-- The store has attributes for every path on the way from `p` down to `q`. -/
def Leads (s : Store) : RemotePath → List Str → RemotePath → Prop
  | p, [], q => p = q
  | p, name :: names, q =>
      ∃ child, p.join name = .ok child ∧ s.getAttrs child ≠ none ∧ Leads s child names q

lemma Leads.mono {s s' : Store} (h : ∀ path, s.getAttrs path ≠ none → s'.getAttrs path ≠ none)
    {p q : RemotePath} {names : List Str} (hl : Leads s p names q) : Leads s' p names q := by
  induction names generalizing p with
  | nil => exact hl
  | cons name names ih =>
      obtain ⟨child, hjoin, hattrs, hrest⟩ := hl
      exact ⟨child, hjoin, h child hattrs, ih hrest⟩

/-- A lookup that succeeds has attributes in the store, its node has the child's path, and at
most these attributes are new. -/
lemma lookup_ok {n : NodeId} {name : Str} {metadata : FileMetadata} (hw : w.state.Wf)
    (h : w.lookup R n name = (.ok metadata, w')) :
    ∃ child, w.childPath n name = .ok child ∧ w'.state.path metadata.node = some child ∧
      w'.store.getAttrs child = some metadata.attributes ∧
      (w'.store = w.store ∨ w'.store = w.store.putAttrs child metadata.attributes) := by
  have hout := outcome_lookup R w n name
  rw [h] at hout
  cases hchild : w.childPath n name with
  | error e =>
      simp only [lookup, hchild] at h
      cases h
  | ok child =>
      have hnode := node_lookup (R := R) hchild (congrArg Prod.fst h)
      rw [h] at hnode
      refine ⟨child, rfl, (wf_outcome hout hw).node_path _ _ hnode, ?_⟩
      simp only [lookup, hchild] at h
      split at h
      · cases h
      · split at h
        · next attributes hfresh =>
            cases h
            exact ⟨(freshAttrs_eq_some.mp hfresh).2, .inl rfl⟩
        · split at h
          · cases h
          · unfold lookupRemote at h
            split at h
            · cases h
              exact ⟨Store.getAttrs_putAttrs_self _ _ _, .inr rfl⟩
            · cases h
            · split at h
              · next attributes hattrs =>
                  split at h
                  · cases h
                    exact ⟨hattrs, .inl rfl⟩
                  · cases h
              · cases h

/-- Attributes are kept, and no content appears. -/
structure Resolved (s s' : Store) : Prop where
  attrs : ∀ path, s.getAttrs path ≠ none → s'.getAttrs path ≠ none
  content : ∀ key, s.content key = none → s'.content key = none

lemma Resolved.trans {s₁ s₂ s₃ : Store} (h : Resolved s₁ s₂) (h' : Resolved s₂ s₃) :
    Resolved s₁ s₃ :=
  ⟨fun path hp => h'.attrs path (h.attrs path hp),
    fun key hk => h'.content key (h.content key hk)⟩

lemma resolved_putAttrs (path : RemotePath) (attrs : FileAttributes) (s : Store) :
    Resolved s (s.putAttrs path attrs) where
  attrs q hq := by
    rw [Store.getAttrs_eq, Store.entry_putAttrs]
    split
    · simp
    · rw [Store.getAttrs_eq] at hq
      exact hq
  content key hkey := by
    cases hc : (s.putAttrs path attrs).content key with
    | none => rfl
    | some c =>
        obtain ⟨orphans, hd, -⟩ := Store.shrinks_putAttrs path attrs s
        have hold : s.content key = some c := hd.kept key c hc
        rw [hkey] at hold
        cases hold

lemma resolved_of_cases {s s' : Store} {path : RemotePath} {attrs : FileAttributes}
    (h : s' = s ∨ s' = s.putAttrs path attrs) : Resolved s s' := by
  rcases h with rfl | rfl
  · exact ⟨fun _ => id, fun _ => id⟩
  · exact resolved_putAttrs path attrs s

/-- **A walk that succeeds** leaves attributes for every directory on the way. -/
lemma walk_ok {names : List Str} {n m : NodeId} {p : RemotePath} (hw : w.state.Wf)
    (hk : Kept w) (hp : w.state.path n = some p) (h : w.walk R names n = (.ok m, w')) :
    ∃ q, Leads w'.store p names q ∧ w'.state.path m = some q ∧ w'.state.Wf ∧ Kept w' ∧
      w'.config = w.config ∧ Resolved w.store w'.store := by
  induction names generalizing w n p with
  | nil =>
      cases h
      exact ⟨p, rfl, hp, hw, hk, rfl, fun _ => id, fun _ => id⟩
  | cons name names ih =>
      rw [walk] at h
      cases hl : w.lookup R n name with
      | mk answer w₁ =>
          rw [hl] at h
          cases answer with
          | error e => cases h
          | ok metadata =>
              have hout := outcome_lookup R w n name
              rw [hl] at hout
              obtain ⟨child, hchild, hnode, hattrs, hstore⟩ := lookup_ok hw hl
              obtain ⟨p', hp', hjoin⟩ := childPath_ok.mp hchild
              rw [hp] at hp'
              cases hp'
              obtain ⟨q, hleads, hq, hw', hk', hconfig, hres⟩ :=
                ih (wf_outcome hout hw) (kept_outcome hout hk) hnode h
              refine ⟨q, ⟨child, hjoin, ?_, hleads⟩, hq, hw', hk',
                hconfig.trans (grows_outcome hout).2, (resolved_of_cases hstore).trans hres⟩
              exact hres.attrs child (by rw [hattrs]; exact Option.some_ne_none _)

/-- **An offline mount resolves** what the store has attributes for. -/
lemma walk_offline {names : List Str} {n : NodeId} {p q : RemotePath} (hw : w.state.Wf)
    (hmode : w.config.cacheMode = .offline) (hneg : ∀ key, w.state.negativeAt key = none)
    (hp : w.state.path n = some p) (hl : Leads w.store p names q) :
    ∃ m w', w.walk R names n = (.ok m, w') ∧ w'.state.path m = some q ∧ w'.store = w.store ∧
      w'.config = w.config := by
  induction names generalizing w n p with
  | nil =>
      cases hl
      exact ⟨n, w, rfl, hp, rfl, rfl⟩
  | cons name names ih =>
      obtain ⟨child, hjoin, hattrs, hrest⟩ := hl
      obtain ⟨attributes, hattrs⟩ := Option.ne_none_iff_exists'.mp hattrs
      have hoff : w.offline = true := by simp [offline, hmode]
      have hfresh : w.freshAttrs child = some attributes := by
        simp [freshAttrs, metadataFresh, hoff, hattrs]
      have hlookup : w.lookup R n name = w.answerAs child attributes := by
        simp [lookup, childPath_ok.mpr ⟨p, hp, hjoin⟩, freshNegative, hneg, hfresh]
      obtain ⟨m, w', hwalk, hq, hstore, hconfig⟩ :=
        ih (w := (w.answerAs child attributes).2) (n := (w.state.intern child).1) (p := child)
          (hw.intern child) hmode (fun key => by simp [answerAs, hneg])
          (hw.path_intern_self child) hrest
      refine ⟨m, w', ?_, hq, hstore, hconfig⟩
      rw [walk, hlookup]
      exact hwalk

/-- A read of a fresh offline mount, where the store leads to the file. -/
lemma readAt_offline {config : Config} {disk : Disk} {conn : Conn ρ} {names : List Str}
    {path : RemotePath} (hmode : config.cacheMode = .offline)
    (hl : Leads (World.new config disk conn).store config.root names path) (offset : UInt64)
    (size : UInt32) :
    (World.new config disk conn).readAt R names offset size =
      (World.new config disk conn).store.readCached path offset size := by
  have hroot := rooted_new config disk conn
  obtain ⟨m, w', hwalk, hm, hstore, hconfig⟩ :=
    walk_offline (R := R) hroot.wf hmode (fun _ => rfl) hroot.path hl
  have hmode' : w'.config.cacheMode = .offline := by rw [hconfig]; exact hmode
  rw [readAt, hwalk]
  simp only [openFile, Bool.or_self, Bool.false_eq_true, if_false, State.pathOf_ok.mpr hm]
  have hfile : (w'.state.openHandle m path).2.file (w'.state.openHandle m path).1 =
      some ⟨m, path⟩ := by
    rw [State.file_openHandle]
    exact if_pos rfl
  rw [read_offline (v := { w' with state := (w'.state.openHandle m path).2 }) hmode' hfile]
  exact congrArg (Store.readCached path offset size) hstore

/-! ## Reading a file piece by piece -/

/-- Attributes of the same version of a file. -/
def SameVersion (a b : FileAttributes) : Prop :=
  a.size = b.size ∧ a.modifiedUnixSeconds = b.modifiedUnixSeconds

lemma SameVersion.label {a b : FileAttributes} (h : SameVersion a b) (chunkSize : ℕ) :
    a.label chunkSize = b.label chunkSize := by
  rw [FileAttributes.label, FileAttributes.label, h.1, h.2]

/-- Time passes, something changes elsewhere, or the file is read with success through the
handle, with attributes of the version of `a`. -/
def ReadsVersion (R : RemoteFilesystem ρ) (n : NodeId) (handle : FileHandle) (a : FileAttributes)
    (w : World ρ) : Event ρ → Prop
  | .call (.read h offset size) => h = handle ∧ (∃ d, (w.read R h offset size).1 = .ok d) ∧
      ∃ metadata, (w.getattr R n).1 = .ok metadata ∧ SameVersion metadata.attributes a
  | .tick _ => True
  | .external _ => True
  | _ => False

/-- A session that has the file at `path` open. -/
structure Reading (n : NodeId) (handle : FileHandle) (path : RemotePath) (names : List Str)
    (w : World ρ) : Prop where
  kept : Kept w
  mode : w.config.cacheMode = .onDemand
  file : w.state.file handle = some ⟨n, path⟩
  node : w.state.path n = some path
  leads : Leads w.store w.config.root names path

/-- The range is served from the cache with the bytes `d`. -/
def Served (path : RemotePath) (a : FileAttributes) (offset : UInt64) (size : UInt32) (d : Bytes)
    (s : Store) : Prop :=
  if size = 0 ∨ a.size ≤ offset then d = []
  else
    (∀ k ∈ chunkRange offset.toNat (Store.readStop offset size a.size) s.chunkSize,
      s.cachedChunk path a k ≠ none) ∧
    s.readCachedRange path offset.toNat (Store.readStop offset size a.size) = .ok d

lemma Served.kept {path : RemotePath} {a : FileAttributes} {offset : UInt64} {size : UInt32}
    {d : Bytes} {s s' : Store} (h : Served path a offset size d s)
    (hs : s.Sound fun _ _ _ _ => True) (hk : s.KeepsChunks path a s') :
    Served path a offset size d s' := by
  unfold Served at h ⊢
  split
  · next hempty => rwa [if_pos hempty] at h
  · next hactive =>
      rw [if_neg hactive] at h
      simp only [not_or, UInt64.not_le] at hactive
      have hlt := (Store.readStop_spec hactive.1 hactive.2).1
      refine ⟨fun k hmem => ?_, ?_⟩
      · rw [hk.chunkSize] at hmem
        exact hk.cached hs (h.1 k hmem)
      · rw [hk.readCachedRange hs hlt h.1]
        exact h.2

/-- What is kept for attributes of a version is kept for the version. -/
lemma keepsChunks_of_sameVersion {path : RemotePath} {a b : FileAttributes} {s s' : Store}
    (hv : SameVersion a b) (h : s.KeepsChunks path a s') : s.KeepsChunks path b s' where
  chunkSize := h.chunkSize
  chunk k o x hk hx := by
    rw [← Store.cachedChunk_congr (hv.label _)] at hk ⊢
    exact h.chunk k o x hk hx

/-- The metadata of a read: the store is as it was or has the new attributes. -/
lemma getattr_ok {n : NodeId} {path : RemotePath} {metadata : FileMetadata}
    (hpath : w.state.path n = some path) (h : w.getattr R n = (.ok metadata, w')) :
    (w'.store = w.store ∨ w'.store = w.store.putAttrs path metadata.attributes) ∧
      (∀ m, w'.state.path m = w.state.path m) ∧ (∀ g, w'.state.file g = w.state.file g) := by
  unfold getattr at h
  rw [State.pathOf_ok.mpr hpath] at h
  simp only at h
  split at h
  · cases h
    exact ⟨.inl rfl, fun _ => rfl, fun _ => rfl⟩
  · split at h
    · cases h
    · unfold getattrRemote at h
      split at h
      · cases h
        exact ⟨.inr rfl, fun _ => rfl, fun _ => rfl⟩
      · cases h
      · split at h
        · split at h
          · cases h
            exact ⟨.inl rfl, fun _ => rfl, fun _ => rfl⟩
          · cases h
        · cases h

/-- A read keeps all attributes. -/
lemma getAttrs_ne_none_of_readFrame {path q : RemotePath} {a : FileAttributes} {s s' : Store}
    (h : Store.ReadFrame path a s s') (hq : s.getAttrs q ≠ none) : s'.getAttrs q ≠ none := by
  rw [Store.getAttrs_eq] at hq ⊢
  by_cases hkey : q.asStr = path.asStr
  · rw [hkey] at hq ⊢
    cases he : s.entry path.asStr with
    | none => simp [he] at hq
    | some e =>
        obtain ⟨e', he', -⟩ := h.attrs_kept e he
        simp [he']
  · rw [h.entry_ne _ hkey]
    exact hq

/-- A read through the open handle, once the metadata is there. -/
lemma Reading.read_eq {n : NodeId} {handle : FileHandle} {path : RemotePath} {names : List Str}
    {metadata : FileMetadata} {offset : UInt64} {size : UInt32}
    (hr : Reading n handle path names w) (h : w.getattr R n = (.ok metadata, w')) :
    w.read R handle offset size =
      ((w'.store.read R path metadata.attributes offset size w'.conn).1,
        { w' with
          store := (w'.store.read R path metadata.attributes offset size w'.conn).2.1
          conn := (w'.store.read R path metadata.attributes offset size w'.conn).2.2 }) := by
  simp only [World.read, hr.file, hr.mode, readContent]
  rw [h]

/-- **One read** of the version keeps what is cached of it, and leaves its own range cached. -/
lemma reading_read {n : NodeId} {handle : FileHandle} {path : RemotePath} {names : List Str}
    {a : FileAttributes} {offset : UInt64} {size : UInt32} (hr : Reading n handle path names w)
    (h : ReadsVersion R n handle a w (.call (.read handle offset size))) :
    Reading n handle path names (w.read R handle offset size).2 ∧
      w.store.KeepsChunks path a (w.read R handle offset size).2.store ∧
      ∃ d, (w.read R handle offset size).1 = .ok d ∧
        Served path a offset size d (w.read R handle offset size).2.store ∧
        (a.size = 0 → w.store.content path.asStr = none →
          (w.read R handle offset size).2.store.content path.asStr = none) := by
  obtain ⟨-, ⟨d, hd⟩, metadata, hget, hversion⟩ := h
  have hout := outcome_read R w handle offset size
  have hkept := kept_outcome hout hr.kept
  have hconfig := (grows_outcome hout).2
  have hmeta : w.getattr R n = (.ok metadata, (w.getattr R n).2) := Prod.ext hget rfl
  set w₁ := (w.getattr R n).2 with hw₁
  obtain ⟨hstore, hpaths, hfiles⟩ := getattr_ok hr.node hmeta
  have hsound₁ : w₁.store.Sound fun _ _ _ _ => True :=
    (durable_outcome (outcome_getattr R w n) hr.kept.1).1
  rw [hr.read_eq hmeta] at hd hkept hconfig ⊢
  have hresolved : Resolved w.store w₁.store := resolved_of_cases hstore
  have hkeeps₁ : w.store.KeepsChunks path a w₁.store := by
    rcases hstore with heq | heq
    · rw [heq]
      exact .refl _
    · rw [heq]
      exact Store.keepsChunks_putAttrs path hversion.1 hversion.2 w.store
  obtain ⟨hkeeps, hserved⟩ :=
    Store.read_keeps (R := R) path metadata.attributes offset size hsound₁ w₁.conn
  have hframe :=
    (Store.read_frame (R := R) path metadata.attributes offset size w₁.store w₁.conn).1
  refine ⟨⟨hkept, hconfig ▸ hr.mode, (hfiles handle).trans hr.file, (hpaths n).trans hr.node, ?_⟩,
    hkeeps₁.trans (keepsChunks_of_sameVersion hversion hkeeps), d, hd, ?_, fun hzero hnone => ?_⟩
  · rw [hconfig]
    exact hr.leads.mono fun q hq => getAttrs_ne_none_of_readFrame hframe (hresolved.attrs q hq)
  · unfold Served
    split
    · next hempty =>
        rw [← hversion.1] at hempty
        rw [Store.read, if_pos hempty] at hd
        cases hd
        rfl
    · next hactive =>
        simp only [not_or, UInt64.not_le] at hactive
        rw [← hversion.1] at hactive
        obtain ⟨hall, hrange⟩ := hserved d hd hactive.1 hactive.2
        rw [hkeeps.chunkSize, ← hversion.1]
        refine ⟨fun k hk => ?_, hrange⟩
        rw [← Store.cachedChunk_congr (hversion.label _)]
        exact hall k hk
  · have hempty : size = 0 ∨ metadata.attributes.size ≤ offset := by
      rw [hversion.1, hzero]
      exact .inr (UInt64.zero_le)
    rw [Store.read, if_pos hempty]
    exact hresolved.content _ hnone

lemma reading_step {n : NodeId} {handle : FileHandle} {path : RemotePath} {names : List Str}
    {a : FileAttributes} {e : Event ρ} (hr : Reading n handle path names w)
    (h : ReadsVersion R n handle a w e) :
    Reading n handle path names (w.step R e) ∧
      w.store.KeepsChunks path a (w.step R e).store ∧
      (a.size = 0 → w.store.content path.asStr = none →
        (w.step R e).store.content path.asStr = none) ∧
      ∀ offset size, e = .call (.read handle offset size) →
        ∃ d, (w.read R handle offset size).1 = .ok d ∧
          Served path a offset size d (w.step R e).store := by
  cases e with
  | tick d =>
      exact ⟨⟨hr.kept, hr.mode, hr.file, hr.node, hr.leads⟩, .refl _, fun _ => id,
        fun _ _ he => by cases he⟩
  | external remote =>
      exact ⟨⟨hr.kept, hr.mode, hr.file, hr.node, hr.leads⟩, .refl _, fun _ => id,
        fun _ _ he => by cases he⟩
  | restart config => exact h.elim
  | call call =>
      cases call with
      | read handle' offset size =>
          obtain rfl := h.1
          obtain ⟨hreading, hkeeps, d, hd, hserved, hempty⟩ := reading_read hr h
          refine ⟨hreading, hkeeps, hempty, fun offset' size' he => ?_⟩
          cases he
          exact ⟨d, hd, hserved⟩
      | _ => exact h.elim

/-- **A sequence of reads** of the version keeps what is cached of it, and every range that was
read is served from the cache at its end, with the bytes that were answered. -/
lemma reading_run {n : NodeId} {handle : FileHandle} {path : RemotePath} {names : List Str}
    {a : FileAttributes} {fs : List (Event ρ)} (hr : Reading n handle path names w)
    (h : AllSteps (step R) (ReadsVersion R n handle a) w fs) :
    Reading n handle path names (run (step R) w fs) ∧
      w.store.KeepsChunks path a (run (step R) w fs).store ∧
      (a.size = 0 → w.store.content path.asStr = none →
        (run (step R) w fs).store.content path.asStr = none) ∧
      ∀ fs₁ fs₂ offset size, fs = fs₁ ++ .call (.read handle offset size) :: fs₂ →
        ∃ d, ((run (step R) w fs₁).read R handle offset size).1 = .ok d ∧
          Served path a offset size d (run (step R) w fs).store := by
  induction fs generalizing w with
  | nil => exact ⟨hr, .refl _, fun _ => id, fun fs₁ fs₂ _ _ hfs => by simp at hfs⟩
  | cons e fs ih =>
      obtain ⟨hr', hkeeps, hempty, hnow⟩ := reading_step hr h.1
      obtain ⟨hr'', hkeeps', hempty', hlater⟩ := ih hr' h.2
      refine ⟨hr'', hkeeps.trans hkeeps', fun hz hnone => hempty' hz (hempty hz hnone),
        fun fs₁ fs₂ offset size hfs => ?_⟩
      cases fs₁ with
      | nil =>
          obtain ⟨rfl, -⟩ := List.cons.inj hfs
          obtain ⟨d, hd, hserved⟩ := hnow offset size rfl
          exact ⟨d, hd, hserved.kept hr'.kept.1.1 hkeeps'⟩
      | cons e' fs₁ =>
          obtain ⟨rfl, hrest⟩ := List.cons.inj hfs
          exact hlater fs₁ fs₂ offset size hrest

/-! ## Every range of a hydrated file -/

/-- The ranges that are read through the handle cover the file. -/
def CoversFile (handle : FileHandle) (a : FileAttributes) (fs : List (Event ρ)) : Prop :=
  ∀ i < a.size.toNat, ∃ offset size, .call (.read handle offset size) ∈ fs ∧
    offset.toNat ≤ i ∧ i < offset.toNat + size.toNat

/-- The chunk of a position in a range is a chunk of the range. -/
lemma div_mem_chunkRange {offset stop chunkSize i : ℕ} (hpos : 0 < chunkSize) (hle : offset ≤ i)
    (hlt : i < stop) : i / chunkSize ∈ chunkRange offset stop chunkSize := by
  rw [chunkRange, max_eq_left (by omega : 1 ≤ chunkSize), List.mem_range'_1]
  have h₁ : offset / chunkSize ≤ i / chunkSize := Nat.div_le_div_right hle
  have h₂ : i / chunkSize ≤ (stop - 1) / chunkSize := Nat.div_le_div_right (by omega)
  omega

/-- A position of a range has its chunk cached where the range is served. -/
lemma Served.chunk {path : RemotePath} {a : FileAttributes} {offset : UInt64} {size : UInt32}
    {d : Bytes} {s : Store} (h : Served path a offset size d s) {i : ℕ} (hi : i < a.size.toNat)
    (hle : offset.toNat ≤ i) (hlt : i < offset.toNat + size.toNat) :
    s.cachedChunk path a (i / s.chunkSize) ≠ none := by
  have hsize : size ≠ 0 := by
    rintro rfl
    simp at hlt
    omega
  have hoffset : offset < a.size := UInt64.lt_iff_toNat_lt.mpr (by omega)
  rw [Served, if_neg (not_or.mpr ⟨hsize, UInt64.not_le.mpr hoffset⟩)] at h
  refine h.1 _ (div_mem_chunkRange s.chunkSize_pos hle ?_)
  rw [(Store.readStop_spec hsize hoffset).2.1]
  omega

/-- With all chunks of the file, every range is served. -/
lemma served_of_chunks {path : RemotePath} {a : FileAttributes} {s : Store}
    (hobjects : s.ObjectsExist)
    (hall : ∀ k, k * s.chunkSize < a.size.toNat → s.cachedChunk path a k ≠ none)
    (offset : UInt64) (size : UInt32) : ∃ d, Served path a offset size d s := by
  unfold Served
  split
  · exact ⟨[], rfl⟩
  · next hactive =>
      simp only [not_or, UInt64.not_le] at hactive
      obtain ⟨hlt, hstop, -⟩ := Store.readStop_spec hactive.1 hactive.2
      have hcached : ∀ k ∈ chunkRange offset.toNat (Store.readStop offset size a.size) s.chunkSize,
          s.cachedChunk path a k ≠ none := fun k hk => by
        have := (Store.mem_chunkRange s.chunkSize_pos hlt hk).1
        exact hall k (by omega)
      obtain ⟨k, hk⟩ := List.exists_mem_of_ne_nil _ (Store.chunkRange_ne_nil s.chunkSize_pos hlt)
      obtain ⟨o, ho⟩ := Option.ne_none_iff_exists'.mp (hcached k hk)
      obtain ⟨c, hr, hlabel⟩ := Store.recorded_of_cachedChunk ho
      rcases Store.readCachedRange_cases hobjects hr.1 (congrArg Label.chunkSize hlabel)
        offset.toNat (Store.readStop offset size a.size) with ⟨d, -, hd⟩ | ⟨⟨j, hj, hnone⟩, -⟩
      · exact ⟨d, hcached, hd⟩
      · refine absurd ?_ (hcached j hj)
        simp [Store.cachedChunk, hr.1, hlabel, hnone]

/-- The offline read of a range that is served. -/
lemma Served.readCached {path : RemotePath} {a : FileAttributes} {offset : UInt64} {size : UInt32}
    {d : Bytes} {s : Store} (h : Served path a offset size d s) {k : ℕ}
    (hk : s.cachedChunk path a k ≠ none) : s.readCached path offset size = .ok d := by
  obtain ⟨o, ho⟩ := Option.ne_none_iff_exists'.mp hk
  obtain ⟨c, hr, hlabel⟩ := Store.recorded_of_cachedChunk ho
  have hsize : c.size = a.size := congrArg Label.size hlabel
  have hcs : c.chunkSize = s.chunkSize := congrArg Label.chunkSize hlabel
  unfold Served at h
  simp only [Store.readCached, hr.1, hcs, if_true, hsize]
  split
  · next hempty => rw [if_pos hempty] at h; rw [h]
  · next hactive => rw [if_neg hactive] at h; exact h.2

/-- The online read of a range that is served. -/
lemma Served.read {path : RemotePath} {a b : FileAttributes} {offset : UInt64} {size : UInt32}
    {d : Bytes} {s : Store} (h : Served path a offset size d s) (hv : SameVersion b a)
    (c : Conn ρ) : (s.read R path b offset size c).1 = .ok d := by
  unfold Served at h
  rw [← hv.1] at h
  unfold Store.read
  split
  · next hempty => rw [if_pos hempty] at h; rw [h]
  · next hactive =>
      rw [if_neg hactive] at h
      simp only
      rw [Store.fetchMissing_cached (fun k hk => by
        rw [Store.cachedChunk_congr (hv.label _)]
        exact h.1 k hk)]
      exact h.2

/-! ## The offline mount -/

/-- The session resolves `names` from the root to the node `n`, and opens it. -/
def Opens (R : RemoteFilesystem ρ) (names : List Str) (n : NodeId) (handle : FileHandle)
    (w w' : World ρ) : Prop :=
  ∃ flags w₁, w.walk R names .root = (.ok n, w₁) ∧ w₁.openFile R n flags = (.ok handle, w')

/-- The outcome of opening a file: its content may have been dropped. -/
lemma openFile_ok {n : NodeId} {path : RemotePath} {flags : OpenFlags} {handle : FileHandle}
    (hpath : w.state.path n = some path) (h : w.openFile R n flags = (.ok handle, w')) :
    w'.state.file handle = some ⟨n, path⟩ ∧ w'.state.path n = some path ∧
      (w'.store = w.store ∨ w'.store = w.store.invalidateContent path) := by
  unfold openFile at h
  split at h
  · cases h
  · rw [State.pathOf_ok.mpr hpath] at h
    simp only at h
    split at h
    · split at h
      · cases h
      · cases h
        refine ⟨?_, hpath, .inr rfl⟩
        rw [State.file_openHandle]
        exact if_pos rfl
    · cases h
      refine ⟨?_, hpath, .inl rfl⟩
      rw [State.file_openHandle]
      exact if_pos rfl

lemma resolved_invalidateContent (path : RemotePath) (s : Store) :
    Resolved s (s.invalidateContent path) where
  attrs q hq := by
    rw [Store.getAttrs_eq] at hq ⊢
    rw [Store.entry_invalidateContent]
    split
    · next hkey =>
        rw [hkey] at hq
        simpa using hq
    · exact hq
  content key hkey := by
    cases hc : (s.invalidateContent path).content key with
    | none => rfl
    | some c =>
        obtain ⟨orphans, hd, -⟩ := Store.shrinks_invalidateContent path s
        have hold : s.content key = some c := hd.kept key c hc
        rw [hkey] at hold
        cases hold

/-- **A session that has opened a file** is ready to read it. -/
lemma Opens.reading {names : List Str} {n : NodeId} {handle : FileHandle} (hr : Rooted w)
    (hk : Kept w) (hmode : w.config.cacheMode = .onDemand) (h : Opens R names n handle w w') :
    ∃ path, Reading n handle path names w' ∧ w'.config = w.config ∧
      (w.store.content path.asStr = none → w'.store.content path.asStr = none) := by
  obtain ⟨flags, w₁, hwalk, hopen⟩ := h
  obtain ⟨path, hleads, hnode, -, hk₁, hconfig, hres⟩ := walk_ok hr.wf hk hr.path hwalk
  have hout := outcome_openFile R w₁ n flags
  rw [hopen] at hout
  obtain ⟨hfile, hpath, hstore⟩ := openFile_ok hnode hopen
  have hres' : Resolved w₁.store w'.store := by
    rcases hstore with heq | heq
    · rw [heq]
      exact ⟨fun _ => id, fun _ => id⟩
    · rw [heq]
      exact resolved_invalidateContent path w₁.store
  have hconfig' : w'.config = w.config := (grows_outcome hout).2.trans hconfig
  refine ⟨path, ⟨kept_outcome hout hk₁, hconfig' ▸ hmode, hfile, hpath, ?_⟩, hconfig',
    (hres.trans hres').content _⟩
  rw [hconfig']
  exact hleads.mono hres'.attrs

/-- The offline mount `v` resolves the file and answers every read, with the bytes that the
online mount answers when it reads the same version, at the end of `fs` and wherever `fs` has
read the range. -/
def ServesOffline {ρ' : Type} (R : RemoteFilesystem ρ) (R' : RemoteFilesystem ρ')
    (names : List Str) (n : NodeId) (handle : FileHandle) (a : FileAttributes) (w : World ρ)
    (fs : List (Event ρ)) (v : World ρ') : Prop :=
  ∀ offset size, ∃ d, v.readAt R' names offset size = .ok d ∧
    (∀ metadata, ((run (step R) w fs).getattr R n).1 = .ok metadata →
      SameVersion metadata.attributes a →
      ((run (step R) w fs).read R handle offset size).1 = .ok d) ∧
    ∀ fs₁ fs₂, fs = fs₁ ++ .call (.read handle offset size) :: fs₂ →
      ((run (step R) w fs₁).read R handle offset size).1 = .ok d

/-- Reads keep the configuration. -/
lemma config_reads {n : NodeId} {handle : FileHandle} {a : FileAttributes} {fs : List (Event ρ)}
    (h : AllSteps (step R) (ReadsVersion R n handle a) w fs) :
    (run (step R) w fs).config = w.config := by
  have hstep : ∀ t e, ReadsVersion R n handle a t e → t.config = w.config →
      (t.step R e).config = w.config := fun t e hcond ht => by
    cases e with
    | call call => exact (grows_outcome (outcome_exec R t call)).2.trans ht
    | tick d => exact ht
    | external remote => exact ht
    | restart config => exact hcond.elim
  exact invariant hstep rfl h

/-- A read of the cache whose range has a position in a chunk that is not there. -/
lemma readCached_missing {s : Store} (hobjects : s.ObjectsExist) {path : RemotePath}
    {content : ContentRef} (hc : s.content path.asStr = some content) {offset : UInt64}
    {size : UInt32} {i : ℕ} (hle : offset.toNat ≤ i) (hlt : i < offset.toNat + size.toNat)
    (hi : i < content.size.toNat)
    (hmiss : content.chunkSize = s.chunkSize → content.chunks.lookup (i / s.chunkSize) = none) :
    s.readCached path offset size = .error notCached := by
  have hsize : size ≠ 0 := by
    rintro rfl
    simp at hlt
    omega
  have hoffset : offset < content.size := UInt64.lt_iff_toNat_lt.mpr (by omega)
  simp only [Store.readCached, hc, if_neg (not_or.mpr ⟨hsize, UInt64.not_le.mpr hoffset⟩)]
  split
  · next hcs =>
      have hmem : i / s.chunkSize ∈
          chunkRange offset.toNat (Store.readStop offset size content.size) s.chunkSize := by
        refine div_mem_chunkRange s.chunkSize_pos hle ?_
        rw [(Store.readStop_spec hsize hoffset).2.1]
        omega
      rcases Store.readCachedRange_cases hobjects hc hcs offset.toNat
        (Store.readStop offset size content.size) with ⟨d, hall, -⟩ | ⟨-, herr⟩
      · exact absurd (hmiss hcs) (hall _ hmem)
      · exact herr
  · rfl

/-- **A hydrated file is served offline.** -/
lemma Reading.servesOffline {n : NodeId} {handle : FileHandle} {path : RemotePath}
    {names : List Str} {a : FileAttributes} {fs : List (Event ρ)} {ρ' : Type}
    (R' : RemoteFilesystem ρ') (hr : Reading n handle path names w)
    (hreads : AllSteps (step R) (ReadsVersion R n handle a) w fs) (hcover : CoversFile handle a fs)
    (hsize : a.size ≠ 0) {v : World ρ'}
    (hv : ∀ offset size, v.readAt R' names offset size =
      (run (step R) w fs).store.readCached path offset size) :
    ServesOffline R R' names n handle a w fs v := by
  obtain ⟨hend, -, -, hserved⟩ := reading_run hr hreads
  set w₃ := run (step R) w fs with hw₃
  -- every chunk of the file lies in a range that was read
  have hall : ∀ k, k * w₃.store.chunkSize < a.size.toNat →
      w₃.store.cachedChunk path a k ≠ none := by
    intro k hk
    obtain ⟨offset, size, hmem, hle, hlt⟩ := hcover _ hk
    obtain ⟨fs₁, fs₂, hfs⟩ := List.append_of_mem hmem
    obtain ⟨d, -, hs⟩ := hserved fs₁ fs₂ offset size hfs
    have hchunk := hs.chunk hk hle hlt
    rwa [Nat.mul_div_cancel _ w₃.store.chunkSize_pos] at hchunk
  have hzero : w₃.store.cachedChunk path a 0 ≠ none := by
    refine hall 0 ?_
    rw [Nat.zero_mul]
    exact Nat.pos_of_ne_zero fun h => hsize (UInt64.toNat_inj.mp h)
  intro offset size
  obtain ⟨d, hd⟩ := served_of_chunks hend.kept.objectsExist hall offset size
  have hcached := hd.readCached hzero
  refine ⟨d, (hv offset size).trans hcached, fun metadata hget hversion => ?_,
    fun fs₁ fs₂ hfs => ?_⟩
  · have hmeta : w₃.getattr R n = (.ok metadata, (w₃.getattr R n).2) := Prod.ext hget rfl
    obtain ⟨hstore, -, -⟩ := getattr_ok hend.node hmeta
    rw [← hw₃, hend.read_eq hmeta]
    refine Served.read (hd.kept hend.kept.1.1 ?_) hversion _
    rcases hstore with heq | heq
    · rw [heq]
      exact .refl _
    · rw [heq]
      exact Store.keepsChunks_putAttrs path hversion.1 hversion.2 w₃.store
  · obtain ⟨d', hd', hs'⟩ := hserved fs₁ fs₂ offset size hfs
    rw [hd']
    exact (hs'.readCached hzero).symm.trans hcached

/-- **Hydrated online, read offline.**  After any history of mounts of a cache directory, an
on-demand mount resolves a file, opens it and reads it in any pieces that cover it, while the
file keeps its version.  If the file is not empty, an offline mount of the directory with the same
root and chunk size resolves it and answers every read with the bytes of the online mount.  An
empty file that was not cached before is not readable offline.  And a read whose range has a
position in a chunk that was never fetched fails as unavailable. -/
theorem hydrated_reads_offline {ρ' : Type} (R' : RemoteFilesystem ρ') (config : Config)
    (conn : Conn ρ) (es : List (Event ρ)) {w : World ρ}
    (hrun : run (step R) (World.new config Disk.empty conn) es = w) :
    (∀ names n handle w' a fs, w.config.cacheMode = .onDemand → Opens R names n handle w w' →
      AllSteps (step R) (ReadsVersion R n handle a) w' fs → CoversFile handle a fs →
      ∀ (offline : Config) (conn' : Conn ρ'), offline.cacheMode = .offline →
        offline.root = w.config.root → offline.cacheChunkSize = w.config.cacheChunkSize →
        (a.size ≠ 0 → ServesOffline R R' names n handle a w' fs
          (World.new offline (run (step R) w' fs).store.disk conn')) ∧
        (a.size = 0 → (∀ path, w'.state.path n = some path → w.store.content path.asStr = none) →
          ∀ offset size, (World.new offline (run (step R) w' fs).store.disk conn').readAt R' names
            offset size = .error notCached)) ∧
    ∀ path content offset size i, w.store.content path.asStr = some content →
      offset.toNat ≤ i → i < offset.toNat + size.toNat → i < content.size.toNat →
      (content.chunkSize = w.store.chunkSize →
        content.chunks.lookup (i / w.store.chunkSize) = none) →
      ∀ (v : World ρ') (handle : FileHandle) (n : NodeId), v.config.cacheMode = .offline →
        v.store = Store.new w.store.disk w.config.cacheChunkSize →
        v.state.file handle = some ⟨n, path⟩ →
        (v.read R' handle offset size).1 = .error notCached := by
  have hkept : Kept w := hrun ▸ kept_run config conn es
  have hrooted : Rooted w := rooted_visits (R := R) ⟨es, List.prefix_refl es, hrun.symm⟩
  refine ⟨fun names n handle w' a fs hmode hopen hreads hcover offline conn' hoff hroot hsize => ?_,
    fun path content offset size i hc hle hlt hi hmiss v handle n hv hstore hfile => ?_⟩
  · obtain ⟨path, hreading, hconfig, hcold⟩ := hopen.reading hrooted hkept hmode
    obtain ⟨hend, -, hempty, -⟩ := reading_run hreading hreads
    have hconfig₃ := (config_reads hreads).trans hconfig
    have hchunks := hsize.trans (congrArg Config.cacheChunkSize hconfig₃).symm
    have hsame := hend.kept.sameCache hchunks conn'
    have hanswer : ∀ offset size,
        (World.new offline (run (step R) w' fs).store.disk conn').readAt R' names offset size =
          (run (step R) w' fs).store.readCached path offset size := fun offset size => by
      have hleads := hend.leads.mono fun q hq => by rw [hsame.getAttrs]; exact hq
      rw [hconfig₃, ← hroot] at hleads
      rw [readAt_offline hoff hleads, hsame.readCached]
    refine ⟨fun hne => hreading.servesOffline R' hreads hcover hne hanswer,
      fun hzero hnone offset size => ?_⟩
    have hno := hempty hzero (hcold (hnone path hreading.node))
    rw [hanswer]
    simp [Store.readCached, hno]
  · have hsame := hkept.sameCache (rfl : w.config.cacheChunkSize = w.config.cacheChunkSize) w.conn
    rw [read_offline hv hfile, hstore]
    exact (hsame.readCached path offset size).trans
      (readCached_missing hkept.objectsExist hc hle hlt hi hmiss)

/-! An on-demand mount with chunks of two bytes, and the offline mount of its directory. -/

/-- The mount of a remote that has `/a` with the given bytes. -/
def mountOf (f : Bytes) (h : (RemoteNode.file f none).Fits) : World Memory :=
  World.new ⟨.root, false, .onDemand, 0, 2⟩ Disk.empty
    ⟨Memory.empty.put ['/', 'a'] (.file f none) h, 0, []⟩

/-- `/a` has been resolved and opened. -/
def openedMount (f : Bytes) (h : (RemoteNode.file f none).Fits) : World Memory :=
  run (step Memory.filesystem) (mountOf f h)
    [.call (.lookup .root ['a']), .call (.openFile ⟨2⟩ { read := true })]

/-- `/a` is read in two pieces. -/
def readPiecewise : List (Event Memory) :=
  [.call (.read ⟨1⟩ 0 1), .tick 5, .call (.read ⟨1⟩ 1 9)]

/-- The offline mount after `/a` has been read. -/
def offlineMount (f : Bytes) (h : (RemoteNode.file f none).Fits) : World Unit :=
  World.new ⟨.root, false, .offline, 0, 2⟩
    (run (step Memory.filesystem) (openedMount f h) readPiecewise).store.disk ⟨(), 0, []⟩

theorem hydrated_reads_offline_pieces :
    ServesOffline Memory.filesystem (disconnectedRemote Unit) [['a']] ⟨2⟩ ⟨1⟩
      (Memory.attributes (.file [1, 2, 3] none)) (openedMount [1, 2, 3] (by decide)) readPiecewise
      (offlineMount [1, 2, 3] (by decide)) := by
  refine ((hydrated_reads_offline (R := Memory.filesystem) (disconnectedRemote Unit)
    ⟨.root, false, .onDemand, 0, 2⟩ _ [] (w := mountOf [1, 2, 3] (by decide)) rfl).1
    [['a']] ⟨2⟩ ⟨1⟩ (openedMount [1, 2, 3] (by decide)) (Memory.attributes (.file [1, 2, 3] none))
    readPiecewise rfl ⟨{ read := true }, _, rfl, rfl⟩ ?_ ?_ ⟨.root, false, .offline, 0, 2⟩
    ⟨(), 0, []⟩ rfl rfl rfl).1 (by decide)
  · exact ⟨⟨rfl, ⟨_, rfl⟩, _, rfl, rfl, rfl⟩, trivial, ⟨rfl, ⟨_, rfl⟩, _, rfl, rfl, rfl⟩, trivial⟩
  · intro i hi
    have hi : i < 3 := hi
    by_cases h : i = 0
    · exact ⟨0, 1, by simp [readPiecewise], by simp, by simp [h]⟩
    · refine ⟨1, 9, by simp [readPiecewise], ?_, ?_⟩
      · show 1 ≤ i
        omega
      · show i < 1 + 9
        omega

/-- The empty file is resolved, opened and read online with success, and its reads cover it; the
offline mount cannot read it. -/
theorem empty_file_not_offline :
    Opens Memory.filesystem [['a']] ⟨2⟩ ⟨1⟩ (mountOf [] (by decide)) (openedMount [] (by decide)) ∧
    AllSteps (step Memory.filesystem) (ReadsVersion Memory.filesystem ⟨2⟩ ⟨1⟩
      (Memory.attributes (.file [] none))) (openedMount [] (by decide)) readPiecewise ∧
    CoversFile ⟨1⟩ (Memory.attributes (.file [] none)) readPiecewise ∧
    ¬ ServesOffline Memory.filesystem (disconnectedRemote Unit) [['a']] ⟨2⟩ ⟨1⟩
      (Memory.attributes (.file [] none)) (openedMount [] (by decide)) readPiecewise
      (offlineMount [] (by decide)) := by
  refine ⟨⟨{ read := true }, _, rfl, rfl⟩, ?_, fun i hi => absurd hi (Nat.not_lt_zero i), ?_⟩
  · exact ⟨⟨rfl, ⟨_, rfl⟩, _, rfl, rfl, rfl⟩, trivial, ⟨rfl, ⟨_, rfl⟩, _, rfl, rfl, rfl⟩, trivial⟩
  · intro h
    obtain ⟨d, hd, -⟩ := h 0 1
    have herr : (offlineMount [] (by decide)).readAt (disconnectedRemote Unit) [['a']] 0 1 =
        .error notCached := by decide
    rw [herr] at hd
    cases hd

end World

end CacheShfs
