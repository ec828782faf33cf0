import CacheShfs.Vfs.Atomic

/-!
# The offline mount

An offline mount is a view of the cache directory it was opened on.  `offlineLookup`,
`offlineGetattr` and `offlineReaddir` say what the view is, as functions of a store and a path;
reads are `Store.readCached`.  In every state of every run the mount answers from the store it
loaded, whatever was called before, and its mutations fail (`offline_mount_immutable`).
-/

namespace CacheShfs

open Machine

namespace Store

/-- The attributes of `name` in the directory at `path`. -/
def offlineLookup (path : RemotePath) (name : Str) (s : Store) : Except Error FileAttributes :=
  match path.join name with
  | .error e => .error e
  | .ok child =>
      match s.getAttrs child with
      | some attributes => .ok attributes
      | none => .error .notFound

/-- The attributes at `path`. -/
def offlineGetattr (path : RemotePath) (s : Store) : Except Error FileAttributes :=
  match s.getAttrs path with
  | some attributes => .ok attributes
  | none => .error .notFound

/-- The names and attributes in the directory at `path`. -/
def offlineReaddir (path : RemotePath) (s : Store) :
    Except Error (List (Str × FileAttributes)) :=
  match World.cachedListing path s with
  | some entries => .ok entries
  | none => .error .notFound

end Store

namespace World

variable {ρ : Type}

/-- `CacheVfs::new_offline`. -/
def newOffline (root : RemotePath) (readOnly : Bool) (metadataTtl : ℕ) (cacheChunkSize : UInt64)
    (disk : Disk) (conn : Conn ρ) : World ρ :=
  World.new ⟨root, readOnly, .offline, metadataTtl, cacheChunkSize⟩ disk conn

/-- What an offline mount keeps: the store it has loaded, and no not-found answers. -/
structure Untouched (s : Store) (w : World ρ) : Prop where
  mode : w.config.cacheMode = .offline
  store : w.store = s
  negative : ∀ key, w.state.negativeAt key = none

lemma untouched_newOffline (root : RemotePath) (readOnly : Bool) (metadataTtl : ℕ)
    (cacheChunkSize : UInt64) (disk : Disk) (conn : Conn ρ) :
    Untouched (Store.new disk cacheChunkSize)
      (newOffline root readOnly metadataTtl cacheChunkSize disk conn) :=
  ⟨rfl, rfl, fun _ => rfl⟩

section
variable {w : World ρ} (hmode : w.config.cacheMode = .offline)
include hmode

lemma offline_of_mode : w.offline = true := by simp [offline, hmode]

/-! ## The answers -/

lemma lookup_offline_eq {n : NodeId} {path : RemotePath} (hpath : w.state.path n = some path)
    (hneg : ∀ key, w.state.negativeAt key = none) (R : RemoteFilesystem ρ) (name : Str) :
    (w.lookup R n name).1.map FileMetadata.attributes = w.store.offlineLookup path name := by
  have hoff := offline_of_mode hmode
  have hjoin : w.childPath n name = path.join name := by
    simp [childPath, State.pathOf_ok.mpr hpath, bind, Except.bind]
  have hfresh : ∀ child, w.freshAttrs child = w.store.getAttrs child := fun child => by
    simp [freshAttrs, metadataFresh, hoff]
  have hnegative : w.freshNegative n name = false := by simp [freshNegative, hneg]
  unfold lookup Store.offlineLookup
  rw [hjoin]
  cases path.join name with
  | error e => rfl
  | ok child =>
      simp only [hnegative, hfresh, Bool.false_eq_true, if_false]
      cases w.store.getAttrs child with
      | some attributes => rfl
      | none => simp [hoff, Except.map]

lemma getattr_offline_eq {n : NodeId} {path : RemotePath} (hpath : w.state.path n = some path)
    (R : RemoteFilesystem ρ) :
    (w.getattr R n).1.map FileMetadata.attributes = w.store.offlineGetattr path := by
  have hoff := offline_of_mode hmode
  have hfresh : w.freshAttrs path = w.store.getAttrs path := by
    simp [freshAttrs, metadataFresh, hoff]
  unfold getattr Store.offlineGetattr
  simp only [State.pathOf_ok.mpr hpath, hfresh]
  cases w.store.getAttrs path with
  | some attributes => rfl
  | none => simp [hoff, Except.map]

lemma readdir_offline_eq {n : NodeId} {path : RemotePath} (hpath : w.state.path n = some path)
    (R : RemoteFilesystem ρ) :
    (w.readdir R n).1.map (List.map DirectoryEntry.shown) = w.store.offlineReaddir path := by
  have hoff := offline_of_mode hmode
  have hfresh : w.metadataFresh path = true := by simp [metadataFresh, hoff]
  unfold readdir Store.offlineReaddir
  simp only [State.pathOf_ok.mpr hpath, hfresh, if_true]
  rcases readdirFromCache_cases w path with ⟨hnone, hlist⟩ | ⟨entries, st, hsome, hlist⟩
  · simp [hnone, hlist, hoff, Except.map]
  · simp [hsome, hlist, Except.map]

/-! ## One call -/

/-- Without a remote a call of an offline mount changes the registry and the handles at most. -/
lemma outcome_offline {call : Call} {w' : World ρ}
    (h : Outcome (disconnectedRemote ρ) w call w') :
    w'.config = w.config ∧ w'.store = w.store ∧
      ∀ key, w'.state.negativeAt key = w.state.negativeAt key := by
  have hoff := offline_of_mode hmode
  cases h with
  | known hst => exact ⟨rfl, rfl, hst.negativeAt⟩
  | failed _ hst => exact ⟨rfl, rfl, hst.negativeAt⟩
  | opened _ => exact ⟨rfl, rfl, fun _ => rfl⟩
  | released => exact ⟨rfl, rfl, fun _ => rfl⟩
  | lookupFound honline _ _ _ _ | lookupMissing honline _ _ | getattrFound honline _ _ _
  | getattrMissing honline _ _ | listed honline _ _ _ _ | listedPartly honline _ _ _ _ =>
      rw [honline] at hoff
      cases hoff
  | readThrough _ honline =>
      rw [hmode] at honline
      cases honline
  | readRejected _ honline _ | readContent _ honline _ _ =>
      rw [hmode] at honline
      rcases honline with honline | honline <;> cases honline
  | truncated _ _ hremote | wrote _ hremote | created _ hremote _ | madeDir _ hremote
  | unlinked _ hremote | removedDir _ hremote | renamed _ hremote | setattrDone _ _ hremote =>
      cases hremote

end

lemma untouched_step {s : Store} {w : World ρ} {e : Event ρ} (he : InSession e)
    (h : Untouched s w) : Untouched s (w.step (disconnectedRemote ρ) e) := by
  cases e with
  | call call =>
      obtain ⟨hconfig, hstore, hneg⟩ := outcome_offline h.mode (outcome_exec _ w call)
      exact ⟨(congrArg Config.cacheMode hconfig).trans h.mode, hstore.trans h.store,
        fun key => (hneg key).trans (h.negative key)⟩
  | tick d => exact ⟨h.mode, h.store, h.negative⟩
  | external remote => exact ⟨h.mode, h.store, h.negative⟩
  | restart config => exact he.elim

/-- Without a remote every mutation fails. -/
lemma mutation_disconnected (w : World ρ) {call : Call} (hmut : call.Mutates) :
    ∃ e, w.failure (disconnectedRemote ρ) call = some e := by
  cases call with
  | write handle offset data =>
      simp only [failure, write]
      split
      · exact ⟨_, rfl⟩
      · split <;> exact ⟨_, rfl⟩
  | openFile node flags =>
      have hmut : flags.truncate = true := hmut
      simp only [failure, openFile]
      split
      · exact ⟨_, rfl⟩
      · split
        · exact ⟨_, rfl⟩
        · rw [if_pos hmut]
          exact ⟨_, rfl⟩
  | create parent name mode flags =>
      simp only [failure, create]
      split <;> exact ⟨_, rfl⟩
  | mkdir parent name mode =>
      simp only [failure, mkdir]
      split <;> exact ⟨_, rfl⟩
  | unlink parent name =>
      simp only [failure, unlink]
      split <;> exact ⟨_, rfl⟩
  | rmdir parent name =>
      simp only [failure, rmdir]
      split <;> exact ⟨_, rfl⟩
  | rename parent name newParent newName =>
      simp only [failure, rename]
      split <;> exact ⟨_, rfl⟩
  | setattr node set =>
      simp only [failure, setattr]
      split
      · exact ⟨_, rfl⟩
      · split <;> exact ⟨_, rfl⟩
  | lookup _ _ | getattr _ | readdir _ | read _ _ _ | flush _ | release _ => exact hmut.elim

/-- **An offline mount is an immutable view.**  In every state of every run over a disconnected
remote the store and its directory are those that were loaded; `lookup`, `getattr`, `readdir` and
`read` answer what the loaded store has for the path, whatever happened before; and every mutation
fails. -/
theorem offline_mount_immutable (root : RemotePath) (readOnly : Bool) (metadataTtl : ℕ)
    (cacheChunkSize : UInt64) (disk : Disk) (conn : Conn ρ) {es : List (Event ρ)}
    (hes : ∀ e ∈ es, InSession e) {w : World ρ}
    (hw : Visits (step (disconnectedRemote ρ))
      (newOffline root readOnly metadataTtl cacheChunkSize disk conn) es w) :
    w.store = Store.new disk cacheChunkSize ∧
    (∀ n path, w.state.path n = some path →
      (∀ name, (w.lookup (disconnectedRemote ρ) n name).1.map FileMetadata.attributes =
        (Store.new disk cacheChunkSize).offlineLookup path name) ∧
      (w.getattr (disconnectedRemote ρ) n).1.map FileMetadata.attributes =
        (Store.new disk cacheChunkSize).offlineGetattr path ∧
      (w.readdir (disconnectedRemote ρ) n).1.map (List.map DirectoryEntry.shown) =
        (Store.new disk cacheChunkSize).offlineReaddir path) ∧
    (∀ handle f, w.state.file handle = some f → ∀ offset size,
      (w.read (disconnectedRemote ρ) handle offset size).1 =
        (Store.new disk cacheChunkSize).readCached f.path offset size) ∧
    ∀ call : Call, call.Mutates → ∃ e, w.failure (disconnectedRemote ρ) call = some e := by
  have h : Untouched (Store.new disk cacheChunkSize) w :=
    visits_invariant (fun _ _ he h => untouched_step he h)
      (untouched_newOffline root readOnly metadataTtl cacheChunkSize disk conn)
      (allSteps_of_forall hes) hw
  rw [← h.store]
  refine ⟨rfl, fun n path hpath => ⟨fun name => ?_, ?_, ?_⟩, fun handle f hf offset size => ?_,
    fun call hmut => mutation_disconnected w hmut⟩
  · exact lookup_offline_eq h.mode hpath h.negative _ name
  · exact getattr_offline_eq h.mode hpath _
  · exact readdir_offline_eq h.mode hpath _
  · exact read_offline h.mode hf offset size

/-- Unlinking `/a` fails, and its attributes are still those on disk. -/
theorem offline_mount_immutable_unlink :
    ((run (step (disconnectedRemote Unit)) (newOffline .root false 0 4 hydratedDisk ⟨(), 0, []⟩)
      [.call (.unlink .root ['a'])]).lookup (disconnectedRemote Unit) .root ['a']).1.map
        FileMetadata.attributes = .ok hydratedAttrs := by
  have hes : ∀ e ∈ ([.call (.unlink .root ['a'])] : List (Event Unit)), InSession e := by
    simp [InSession]
  have hview := (offline_mount_immutable .root false 0 4 hydratedDisk ⟨(), 0, []⟩ hes
    ⟨_, List.prefix_rfl, rfl⟩).2.1 .root .root rfl
  rw [hview.1 ['a']]
  rfl

end World

end CacheShfs
