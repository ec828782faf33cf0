import CacheShfs.Vfs.Requests

/-!
# Mutations that fail

A call that changes the remote makes its one call to the remote before it touches the cache.  So a
mutation answers `Ok`, or it leaves everything but the connection as it was (`OkOrSame`), whatever
made it fail.  On a read-only mount it does not get as far as the remote.
-/

namespace CacheShfs

open Machine

/-- The error of an answer. -/
def errorOf {α : Type} : Except Error α → Option Error
  | .ok _ => none
  | .error e => some e

namespace World

variable {ρ : Type} {R : RemoteFilesystem ρ} {w : World ρ}

/-- The error a call answers with. -/
def failure (R : RemoteFilesystem ρ) (w : World ρ) : Call → Option Error
  | .lookup parent name => errorOf (w.lookup R parent name).1
  | .getattr node => errorOf (w.getattr R node).1
  | .readdir node => errorOf (w.readdir R node).1
  | .openFile node flags => errorOf (w.openFile R node flags).1
  | .read handle offset size => errorOf (w.read R handle offset size).1
  | .write handle offset data => errorOf (w.write R handle offset data).1
  | .flush handle => errorOf (w.flush handle).1
  | .release handle => errorOf (w.release handle).1
  | .create parent name mode flags => errorOf (w.create R parent name mode flags).1
  | .mkdir parent name mode => errorOf (w.mkdir R parent name mode).1
  | .unlink parent name => errorOf (w.unlink R parent name).1
  | .rmdir parent name => errorOf (w.rmdir R parent name).1
  | .rename parent name newParent newName => errorOf (w.rename R parent name newParent newName).1
  | .setattr node set => errorOf (w.setattr R node set).1

/-- Session, store and configuration of a world, without the connection. -/
def SameCache (w w' : World ρ) : Prop := w' = { w with conn := w'.conn }

/-- The call has succeeded, or has changed nothing but the connection. -/
def OkOrSame {α : Type} (w : World ρ) (x : Except Error α × World ρ) : Prop :=
  errorOf x.1 = none ∨ w.SameCache x.2

lemma okOrSame_error {α : Type} (e : Error) (conn : Conn ρ) :
    OkOrSame w ((.error e : Except Error α), { w with conn := conn }) := .inr rfl

/-! ## One mutation -/

lemma write_okOrSame (handle : FileHandle) (offset : UInt64) (data : Bytes) :
    OkOrSame w (w.write R handle offset data) := by
  unfold write
  split
  · exact okOrSame_error _ _
  · split
    · exact okOrSame_error _ _
    · split
      · exact okOrSame_error _ _
      · exact .inl rfl

lemma openFile_okOrSame (node : NodeId) (flags : OpenFlags) :
    OkOrSame w (w.openFile R node flags) := by
  unfold openFile
  split
  · exact okOrSame_error _ _
  · split
    · exact okOrSame_error _ _
    · split
      · split
        · exact okOrSame_error _ _
        · exact .inl rfl
      · exact .inl rfl

lemma create_okOrSame (parent : NodeId) (name : Str) (mode : UInt32) (flags : OpenFlags) :
    OkOrSame w (w.create R parent name mode flags) := by
  unfold create
  split
  · exact okOrSame_error _ _
  · split
    · exact okOrSame_error _ _
    · exact .inl rfl

lemma mkdir_okOrSame (parent : NodeId) (name : Str) (mode : UInt32) :
    OkOrSame w (w.mkdir R parent name mode) := by
  unfold mkdir
  split
  · exact okOrSame_error _ _
  · split
    · exact okOrSame_error _ _
    · exact .inl rfl

lemma unlink_okOrSame (parent : NodeId) (name : Str) : OkOrSame w (w.unlink R parent name) := by
  unfold unlink
  split
  · exact okOrSame_error _ _
  · split
    · exact okOrSame_error _ _
    · exact .inl rfl

lemma rmdir_okOrSame (parent : NodeId) (name : Str) : OkOrSame w (w.rmdir R parent name) := by
  unfold rmdir
  split
  · exact okOrSame_error _ _
  · split
    · exact okOrSame_error _ _
    · exact .inl rfl

lemma rename_okOrSame (parent : NodeId) (name : Str) (newParent : NodeId) (newName : Str) :
    OkOrSame w (w.rename R parent name newParent newName) := by
  unfold rename
  split
  · exact okOrSame_error _ _
  · split
    · exact okOrSame_error _ _
    · exact .inl rfl

lemma setattr_okOrSame (node : NodeId) (set : SetAttributes) :
    OkOrSame w (w.setattr R node set) := by
  unfold setattr
  split
  · exact okOrSame_error _ _
  · split
    · exact okOrSame_error _ _
    · split
      · exact okOrSame_error _ _
      · exact .inl rfl

lemma OkOrSame.of_failure {α : Type} {x : Except Error α × World ρ} (h : OkOrSame w x) {e : Error}
    (he : errorOf x.1 = some e) : w.SameCache x.2 := by
  rcases h with h | h
  · rw [h] at he
    cases he
  · exact h

/-- A mutation that fails changes nothing but the connection. -/
lemma sameCache_of_failure {call : Call} (hmut : call.Mutates) {e : Error}
    (he : w.failure R call = some e) : w.SameCache (w.exec R call) := by
  cases call with
  | write handle offset data => exact (write_okOrSame handle offset data).of_failure he
  | openFile node flags => exact (openFile_okOrSame node flags).of_failure he
  | create parent name mode flags => exact (create_okOrSame parent name mode flags).of_failure he
  | mkdir parent name mode => exact (mkdir_okOrSame parent name mode).of_failure he
  | unlink parent name => exact (unlink_okOrSame parent name).of_failure he
  | rmdir parent name => exact (rmdir_okOrSame parent name).of_failure he
  | rename parent name newParent newName =>
      exact (rename_okOrSame parent name newParent newName).of_failure he
  | setattr node set => exact (setattr_okOrSame node set).of_failure he
  | lookup _ _ | getattr _ | readdir _ | read _ _ _ | flush _ | release _ => exact hmut.elim

/-! ## Whole runs -/

/-- **Failed mutations are atomic, and read-only mounts never mutate.**  In every state of every
run, a mutation that answers with an error leaves the configuration, the store with its directory
and the session state as they were; and no step of a read-only mount sends the remote a call that
changes it. -/
theorem failed_mutations_atomic (config : Config) (disk : Disk) (conn : Conn ρ)
    (es : List (Event ρ)) :
    (∀ w, Visits (step R) (World.new config disk conn) es w → ∀ call : Call, call.Mutates →
      ∀ e, w.failure R call = some e → (w.exec R call).config = w.config ∧
        (w.exec R call).store = w.store ∧ (w.exec R call).state = w.state) ∧
    AllSteps (step R)
      (fun w e => w.config.readOnly = true →
        Conn.Asked (fun call => ¬ call.Mutates) w.conn (w.step R e).conn)
      (World.new config disk conn) es := by
  constructor
  · intro w _ call hmut e he
    have hsame : w.exec R call = _ := sameCache_of_failure hmut he
    rw [hsame]
    exact ⟨rfl, rfl, rfl⟩
  · refine allSteps_mono (fun w e _ hro => ?_) (allSteps_visits (step R) _ es)
    refine (asked_step w e).mono fun call hcall hmut => ?_
    rw [hcall.writable hmut] at hro
    cases hro

/-- There is no `/b` to unlink, and nothing changes. -/
theorem failed_mutations_atomic_unlink :
    (mount sampleTree 0).failure Memory.filesystem (.unlink .root ['b']) = some .notFound ∧
      ((mount sampleTree 0).exec Memory.filesystem (.unlink .root ['b'])).store =
        (mount sampleTree 0).store := by
  have hfail : (mount sampleTree 0).failure Memory.filesystem (.unlink .root ['b']) =
      some .notFound := by decide
  obtain ⟨hatomic, -⟩ := failed_mutations_atomic (R := Memory.filesystem)
    ⟨.root, false, .onDemand, 0, 4⟩ Disk.empty ⟨sampleTree, 0, []⟩ []
  exact ⟨hfail, (hatomic _ (visits_nil.mpr rfl) (.unlink .root ['b']) trivial _ hfail).2.1⟩

end World

end CacheShfs
