import CacheShfs.Store.Mirror
import CacheShfs.Vfs.Tasks

/-!
# A file that has been unlinked

Any number of concurrent calls, one of them an `unlink` of `p` that has returned.  A later `lookup`
of `p` finds nothing as long as the store has no entry for `p`: the remote answers that there is
no such file, and so does a session that is opened offline on the same cache directory.

But `unlink` removes the entry once.  A call that is under way can put it back: `put_attrs` with
what a `stat` answered before, or the recording of a chunk, which makes an entry where there is
none.  `unlinked_stays_deleted` says that the file stays deleted exactly if there is no entry when
`unlink` returns and no call puts one back later.
-/

namespace CacheShfs

open Interleave Machine

variable {ρ : Type} {R : RemoteFilesystem ρ} {view : ρ → Tree}

/-! ## Entries -/

namespace CallPc

variable {w w' : World ρ} {pc pc' : CallPc}

/-- The path for which the next step of a call makes an entry. -/
def inserts : CallPc → Option RemotePath
  | .put _ path _ => some path
  | .content ⟨a, .record _ _ _⟩ => some a.path
  | _ => none

/-- A step that makes no entry for a path leaves it without one. -/
lemma Steps.entry_none (h : Steps R w pc pc' w') {p : RemotePath} (hins : pc.inserts ≠ some p)
    (hnone : w.store.entry p.asStr = none) : w'.store.entry p.asStr = none := by
  cases h with
  | put =>
      rw [Store.entry_putAttrs, if_neg]
      · exact hnone
      · exact fun heq => hins (congrArg some (RemotePath.ext heq.symm))
  | dropLookup =>
      rw [Store.entry_remove, hnone, ite_self]
  | drop _ => rw [Store.entry_remove, hnone, ite_self]
  | remove => rw [Store.entry_remove, hnone, ite_self]
  | unlist => rw [Store.entry_invalidateChildren, hnone]
  | invalidate =>
      rw [Store.entry_invalidateContent]
      split
      · next heq => rw [← heq, hnone]; rfl
      · exact hnone
  | content _ h =>
      cases h with
      | record =>
          rw [Store.entry_recordChunk, if_neg]
          · exact hnone
          · exact fun heq => hins (congrArg some (RemotePath.ext heq.symm))
      | _ => exact hnone
  | _ => exact hnone

/-- A step that makes an entry. -/
lemma Steps.entry_some (h : Steps R w pc pc' w') {p : RemotePath} (hins : pc.inserts = some p) :
    w'.store.entry p.asStr ≠ none := by
  cases h with
  | put =>
      cases hins
      rw [Store.entry_putAttrs, if_pos rfl]
      exact Option.some_ne_none _
  | content _ h =>
      cases h with
      | record =>
          cases hins
          rw [Store.entry_recordChunk, if_pos rfl]
          exact Option.some_ne_none _
      | _ => cases hins
  | _ => cases hins

lemma Steps.mirrors (h : Steps R w pc pc' w') (hm : w.store.Mirrors) : w'.store.Mirrors := by
  cases h with
  | put => exact Store.mirrors_putAttrs _ _ _
  | dropLookup => exact hm.remove _
  | drop _ => exact hm.remove _
  | remove => exact hm.remove _
  | unlist => exact hm.invalidateChildren _
  | invalidate => exact hm.invalidateContent _
  | content _ h => exact h.mirrors hm
  | _ => exact hm

/-- What the remote does not have, no step brings back. -/
lemma Steps.view_none (hA : StatsTree R view) (hD : Deletes R view) (h : Steps R w pc pc' w')
    {p : Str} (hnone : view w.conn.remote p = none) : view w'.conn.remote p = none := by
  cases h with
  | statFound h => rw [(Conn.stat_eq h).2]; exact (congrFun (hA.view_stat _ _) p).trans hnone
  | statMissing h => rw [(Conn.stat_eq h).2]; exact (congrFun (hA.view_stat _ _) p).trans hnone
  | statFailed h _ => rw [(Conn.stat_eq h).2]; exact (congrFun (hA.view_stat _ _) p).trans hnone
  | content _ h => exact (congrFun (h.view hA.toHonestReads) p).trans hnone
  | readThrough h =>
      rw [(Conn.read_eq h).2]
      exact (congrFun (hA.view_read _ _ _ _) p).trans hnone
  | wrote h => rw [(Conn.write_eq h).2]; exact hD.write_none _ _ _ _ _ hnone
  | writeFailed h => rw [(Conn.write_eq h).2]; exact hD.write_none _ _ _ _ _ hnone
  | unlinked h => rw [(Conn.unlink_eq h).2]; exact hD.unlink_none _ _ _ hnone
  | unlinkFailed h => rw [(Conn.unlink_eq h).2]; exact hD.unlink_none _ _ _ hnone
  | _ => exact hnone

end CallPc

/-! ## Sequential runs -/

namespace World

/-- Every call keeps the entries on disk in step with those in memory. -/
lemma mirrors_outcome {w w' : World ρ} {call : Call} (h : Outcome R w call w')
    (hm : w.store.Mirrors) : w'.store.Mirrors := by
  induction h with
  | lookupFound _ _ _ _ _ => exact Store.mirrors_putAttrs _ _ _
  | lookupMissing _ _ _ => exact hm.remove _
  | getattrFound _ _ _ _ => exact Store.mirrors_putAttrs _ _ _
  | getattrMissing _ _ _ => exact hm.remove _
  | listed _ _ _ _ _ => exact Store.mirrors_recordListing _ _ _
  | listedPartly _ _ _ _ _ => exact Store.mirrors_recordListing _ _ _
  | truncated _ _ _ => exact hm.invalidateContent _
  | readRejected _ _ _ ih => exact ih
  | readContent _ _ _ _ ih => exact Store.Mirrors.read ih _ _ _ _ _
  | wrote _ _ => exact hm.invalidateContent _
  | created _ _ _ => exact (Store.mirrors_putAttrs _ _ _).invalidateChildren _
  | madeDir _ _ => exact (Store.mirrors_putAttrs _ _ _).invalidateChildren _
  | unlinked _ _ => exact (hm.remove _).invalidateChildren _
  | removedDir _ _ => exact (hm.remove _).invalidateChildren _
  | renamed _ _ =>
      exact ((Store.mirrors_rename _ _ _).invalidateChildren _).invalidateChildren _
  | setattrDone _ _ _ => exact Store.mirrors_putAttrs _ _ _
  | _ => exact hm

lemma mirrors_step (w : World ρ) (e : Event ρ) (hm : w.store.Mirrors) :
    (w.step R e).store.Mirrors := by
  cases e with
  | call call => exact mirrors_outcome (outcome_exec R w call) hm
  | tick d => exact hm
  | external remote => exact hm
  | restart config => exact Store.mirrors_new _ _

/-! ## Offline sessions -/

/-- A session without a remote leaves its store as it is. -/
lemma store_disconnected {w w' : World ρ} {call : Call}
    (h : Outcome (disconnectedRemote ρ) w call w') (hoffline : w.config.cacheMode = .offline) :
    w'.store = w.store := by
  cases h with
  | known _ => rfl
  | failed _ _ => rfl
  | opened _ => rfl
  | released => rfl
  | readThrough _ _ => rfl
  | lookupFound _ _ _ _ h => cases (Conn.stat_eq h).1
  | lookupMissing _ _ h => cases (Conn.stat_eq h).1
  | getattrFound _ _ _ h => cases (Conn.stat_eq h).1
  | getattrMissing _ _ h => cases (Conn.stat_eq h).1
  | listed _ _ _ h _ => cases (Conn.readDir_eq h).1
  | listedPartly _ _ _ h _ => cases (Conn.readDir_eq h).1
  | truncated _ _ h => cases (Conn.setattr_eq h).1
  | readRejected _ hmode _ => rw [hoffline] at hmode; rcases hmode with h | h <;> cases h
  | readContent _ hmode _ _ => rw [hoffline] at hmode; rcases hmode with h | h <;> cases h
  | wrote _ h => cases (Conn.write_eq h).1
  | created _ h _ => cases (Conn.create_eq h).1
  | madeDir _ h => cases (Conn.mkdir_eq h).1
  | unlinked _ h => cases (Conn.unlink_eq h).1
  | removedDir _ h => cases (Conn.rmdir_eq h).1
  | renamed _ h => cases (Conn.rename_eq h).1
  | setattrDone _ _ h => cases (Conn.setattr_eq h).1

/-- The events of offline sessions. -/
def StaysOffline : Event Unit → Prop
  | .restart config => config.cacheMode = .offline
  | _ => True

/-- The runs of offline sessions on a cache directory. -/
def offlineRun (config : Config) (disk : Disk) (now : ℕ) (events : List (Event Unit)) :
    World Unit :=
  run (World.step (disconnectedRemote Unit)) (World.new config disk ⟨(), now, []⟩) events

/-- No lookup of the path succeeds in an offline session on the cache directory. -/
def NotFoundOffline (p : RemotePath) (disk : Disk) : Prop :=
  ∀ config now events, config.cacheMode = .offline → (∀ e ∈ events, StaysOffline e) →
    ∀ parent name, (offlineRun config disk now events).childPath parent name = .ok p →
      ∀ metadata, ((offlineRun config disk now events).lookup (disconnectedRemote Unit) parent
        name).1 ≠ .ok metadata

/-- An offline session that has no entry for a path, in memory or on disk. -/
structure Unknown (p : RemotePath) (w : World Unit) : Prop where
  offline : w.config.cacheMode = .offline
  entry : w.store.entry p.asStr = none
  stored : w.store.stored p.asStr = none

lemma unknown_step {p : RemotePath} {w : World Unit} {e : Event Unit} (he : StaysOffline e)
    (h : Unknown p w) : Unknown p (w.step (disconnectedRemote Unit) e) := by
  cases e with
  | call call =>
      have hout := outcome_exec (disconnectedRemote Unit) w call
      have hstore := store_disconnected hout h.offline
      refine ⟨(congrArg Config.cacheMode (grows_outcome hout).2).trans h.offline, ?_, ?_⟩
      · rw [step, hstore]
        exact h.entry
      · rw [step, hstore]
        exact h.stored
  | tick d => exact ⟨h.offline, h.entry, h.stored⟩
  | external remote => exact ⟨h.offline, h.entry, h.stored⟩
  | restart config => exact ⟨he, h.stored, h.stored⟩

/-- A path without an entry is found by no offline session. -/
lemma notFoundOffline_of_stored {p : RemotePath} {s : Store} (h : s.stored p.asStr = none) :
    NotFoundOffline p s.disk := by
  intro config now events hmode hevents parent name hchild metadata hok
  obtain ⟨hoffline, hentry, -⟩ : Unknown p (offlineRun config s.disk now events) :=
    invariant (fun w e => unknown_step) ⟨hmode, h, h⟩ (allSteps_of_forall hevents)
  have hnone : (offlineRun config s.disk now events).freshAttrs p = none := by
    rw [World.freshAttrs, Store.getAttrs_eq, hentry]
    simp
  have hoff : (offlineRun config s.disk now events).offline = true := by simp [offline, hoffline]
  rw [lookup, hchild] at hok
  simp only [hnone, hoff, if_true] at hok
  split at hok <;> cases hok

/-- A path with an entry is found by the session that has its directory as root. -/
lemma stored_of_notFoundOffline {parentPath p : RemotePath} {name : Str} {s : Store}
    (hjoin : parentPath.join name = .ok p) (h : NotFoundOffline p s.disk) :
    s.stored p.asStr = none := by
  by_contra hne
  obtain ⟨e, he⟩ := Option.ne_none_iff_exists'.mp hne
  let config : Config := ⟨parentPath, false, .offline, 0, 1⟩
  have hchild : (offlineRun config s.disk 0 []).childPath NodeId.root name = .ok p :=
    childPath_ok.mpr ⟨parentPath, AList.lookup_insert _, hjoin⟩
  have hattrs : (offlineRun config s.disk 0 []).freshAttrs p = some e.attrs.toAttributes := by
    refine freshAttrs_eq_some.mpr ⟨rfl, ?_⟩
    rw [Store.getAttrs_eq]
    have hentry : (offlineRun config s.disk 0 []).store.entry p.asStr = some e := he
    rw [hentry]
    rfl
  refine h config 0 [] rfl (by simp) NodeId.root name hchild
    ⟨((offlineRun config s.disk 0 []).state.intern p).1, e.attrs.toAttributes⟩ ?_
  rw [lookup, hchild]
  simp only [hattrs]
  rfl

end World

/-! ## The unlink and the lookups after it -/

namespace CallPc

variable {w w' : World ρ} {pc pc' : CallPc} {parent : NodeId} {name : Str}

variable (view) in
/-- The remote has nothing at the path that a name leads to. -/
def Gone (parent : NodeId) (name : Str) (w : World ρ) : Prop :=
  ∃ child, w.childPath parent name = .ok child ∧ view w.conn.remote child.asStr = none

variable (view) in
/-- The assertion of an `unlink`: from the remote call on, the file is gone at the remote. -/
def Unlinks (parent : NodeId) (name : Str) (w : World ρ) : CallPc → Prop
  | .unlink parent' name' => parent' = parent ∧ name' = name
  | .unlinkRemote parent' name' _ child => parent' = parent ∧ name' = name ∧
      w.childPath parent name = .ok child
  | .remove parent' name' _ _ => parent' = parent ∧ name' = name ∧ Gone view parent name w
  | .unlist parent' name' _ => parent' = parent ∧ name' = name ∧ Gone view parent name w
  | .negate _ _ answer => answer = .done (.ok ()) ∧ Gone view parent name w
  | .done answer => answer = .done (.ok ()) → Gone view parent name w
  | _ => False

lemma Gone.step (hA : StatsTree R view) (hD : Deletes R view) (h : Steps R w pc pc' w')
    (hw : w.state.Wf) (hgone : Gone view parent name w) : Gone view parent name w' := by
  obtain ⟨child, hchild, hnone⟩ := hgone
  exact ⟨child, (h.extends hw).childPath hchild, h.view_none hA hD hnone⟩

/-- A step of another call. -/
lemma Unlinks.frame (hA : StatsTree R view) (hD : Deletes R view) {other other' : CallPc}
    (h : Steps R w other other' w') (hw : w.state.Wf) (hpc : Unlinks view parent name w pc) :
    Unlinks view parent name w' pc := by
  cases pc with
  | unlink parent' name' => exact hpc
  | unlinkRemote parent' name' parentPath child =>
      exact ⟨hpc.1, hpc.2.1, (h.extends hw).childPath hpc.2.2⟩
  | remove parent' name' parentPath child => exact ⟨hpc.1, hpc.2.1, hpc.2.2.step hA hD h hw⟩
  | unlist parent' name' parentPath => exact ⟨hpc.1, hpc.2.1, hpc.2.2.step hA hD h hw⟩
  | negate parent' name' answer => exact ⟨hpc.1, hpc.2.step hA hD h hw⟩
  | done answer => exact fun hok => (hpc hok).step hA hD h hw
  | _ => exact hpc.elim

/-- A step of the `unlink` itself. -/
lemma Unlinks.step (hA : StatsTree R view) (hD : Deletes R view) (h : Steps R w pc pc' w')
    (hw : w.state.Wf) (hpc : Unlinks view parent name w pc) :
    Unlinks view parent name w' pc' := by
  have hext := h.extends hw
  have hkeep : Gone view parent name w → Gone view parent name w' := fun hg => hg.step hA hD h hw
  cases h with
  | unlink hresolve =>
      obtain ⟨rfl, rfl⟩ := hpc
      obtain ⟨hp, hjoin⟩ := World.resolve_ok hresolve
      exact ⟨rfl, rfl, World.childPath_ok.mpr ⟨_, hp, hjoin⟩⟩
  | unlinkBad => exact nofun
  | unlinked hunlink =>
      obtain ⟨rfl, rfl, hchild⟩ := hpc
      refine ⟨rfl, rfl, _, hext.childPath hchild, ?_⟩
      rw [(Conn.unlink_eq hunlink).2]
      exact hD.unlink_ok _ _ (Conn.unlink_eq hunlink).1
  | unlinkFailed _ => exact nofun
  | remove => exact ⟨hpc.1, hpc.2.1, hkeep hpc.2.2⟩
  | unlist => exact ⟨rfl, hkeep hpc.2.2⟩
  | negate => exact fun _ => hkeep hpc.2
  | idle => exact hpc
  | _ => exact hpc.elim

/-- The assertion of a `lookup` that began when `p` was gone. -/
def Denied (p : RemotePath) (parent : NodeId) (name : Str) (w : World ρ) : CallPc → Prop
  | .lookup parent' name' => parent' = parent ∧ name' = name
  | .negative parent' name' child => parent' = parent ∧ name' = name ∧
      w.childPath parent name = .ok child
  | .fresh caller path => caller = .lookup parent name ∧ w.childPath parent name = .ok path
  | .cached caller path => caller = .lookup parent name ∧ w.childPath parent name = .ok path
  | .stat caller path => caller = .lookup parent name ∧ w.childPath parent name = .ok path
  | .drop caller _ => caller = .lookup parent name
  | .put caller path _ => caller = .lookup parent name ∧
      w.childPath parent name = .ok path ∧ path ≠ p
  | .stamp caller path _ => caller = .lookup parent name ∧
      w.childPath parent name = .ok path ∧ path ≠ p
  | .fallback caller path _ => caller = .lookup parent name ∧
      w.childPath parent name = .ok path ∧ path ≠ p
  | .intern path _ => w.childPath parent name = .ok path ∧ path ≠ p
  | .negate _ _ answer => answer = .metadata (.error .notFound)
  | .done answer => ∀ metadata, answer = .metadata (.ok metadata) →
      ∃ path, w.childPath parent name = .ok path ∧ path ≠ p
  | _ => False

lemma Denied.extends {p : RemotePath} (h : Denied p parent name w pc) (hext : w.Extends w') :
    Denied p parent name w' pc := by
  cases pc with
  | lookup parent' name' => exact h
  | negative parent' name' child => exact ⟨h.1, h.2.1, hext.childPath h.2.2⟩
  | fresh caller path => exact ⟨h.1, hext.childPath h.2⟩
  | cached caller path => exact ⟨h.1, hext.childPath h.2⟩
  | stat caller path => exact ⟨h.1, hext.childPath h.2⟩
  | drop caller path => exact h
  | put caller path attributes => exact ⟨h.1, hext.childPath h.2.1, h.2.2⟩
  | stamp caller path attributes => exact ⟨h.1, hext.childPath h.2.1, h.2.2⟩
  | fallback caller path error => exact ⟨h.1, hext.childPath h.2.1, h.2.2⟩
  | intern path attributes => exact ⟨hext.childPath h.1, h.2⟩
  | negate parent' name' answer => exact h
  | done answer =>
      intro metadata hok
      obtain ⟨path, hpath, hne⟩ := h metadata hok
      exact ⟨path, hext.childPath hpath, hne⟩
  | _ => exact h.elim

/-- A step of such a `lookup`: neither the store nor the remote has the file. -/
lemma Denied.step (hA : StatsTree R view) {p : RemotePath} (h : Steps R w pc pc' w')
    (hw : w.state.Wf) (hview : view w.conn.remote p.asStr = none)
    (hentry : w.store.entry p.asStr = none) (hpc : Denied p parent name w pc) :
    Denied p parent name w' pc' := by
  have hext := h.extends hw
  have hstat := hA.stat_none p w.conn.remote hview
  have hattrs : w.store.getAttrs p = none := by rw [Store.getAttrs_eq, hentry]; rfl
  cases h with
  | lookup hchild =>
      obtain ⟨rfl, rfl⟩ := hpc
      exact ⟨rfl, rfl, hchild⟩
  | lookupBad _ => exact nofun
  | negativeHit _ => exact nofun
  | negativeMiss _ =>
      obtain ⟨rfl, rfl, hchild⟩ := hpc
      exact ⟨rfl, hchild⟩
  | fresh _ => exact hpc
  | expired _ => exact hpc
  | cached hfound =>
      obtain ⟨rfl, hchild⟩ := hpc
      refine ⟨hchild, ?_⟩
      rintro rfl
      rw [hattrs] at hfound
      cases hfound
  | uncached _ _ => exact hpc
  | uncachedOffline _ _ =>
      obtain ⟨rfl, -⟩ := hpc
      exact nofun
  | statFound hfound =>
      refine ⟨hpc.1, hext.childPath hpc.2, ?_⟩
      rintro rfl
      cases hstat.symm.trans (Conn.stat_eq hfound).1
  | statMissing _ => exact hpc.1
  | statFailed hfailed hne =>
      refine ⟨hpc.1, hext.childPath hpc.2, ?_⟩
      rintro rfl
      exact hne (Except.error.inj (hstat.symm.trans (Conn.stat_eq hfailed).1)).symm
  | put => exact ⟨hpc.1, hext.childPath hpc.2.1, hpc.2.2⟩
  | stampLookup =>
      intro metadata _
      obtain ⟨-, hchild, hne⟩ := hpc
      exact ⟨_, hext.childPath hchild, hne⟩
  | stamp hcaller => exact absurd hpc.1 (hcaller _ _)
  | dropLookup => exact rfl
  | drop hcaller => exact absurd hpc (hcaller _ _)
  | fallback _ _ =>
      obtain ⟨rfl, hchild, hne⟩ := hpc
      exact ⟨hchild, hne⟩
  | noFallback =>
      obtain ⟨rfl, -⟩ := hpc
      exact nofun
  | intern =>
      intro metadata _
      exact ⟨_, hext.childPath hpc.1, hpc.2⟩
  | negate =>
      rintro metadata rfl
      cases hpc
  | idle => exact hpc
  | _ => exact hpc.elim

end CallPc

/-! ## Any number of calls -/

namespace Calls

variable {ι : Type} [DecidableEq ι]

/-- No call makes an entry for the path. -/
def KeepsDeleted (p : RemotePath) (x : Pool ι CallPc (World ρ)) : Move ι ℕ → Prop
  | .task i => (x.tasks i).inserts ≠ some p
  | .env _ => True

instance (p : RemotePath) (x : Pool ι CallPc (World ρ)) (move : Move ι ℕ) :
    Decidable (KeepsDeleted p x move) :=
  match move with
  | .task i => inferInstanceAs (Decidable ((x.tasks i).inserts ≠ some p))
  | .env _ => isTrue trivial

/-- The path that was unlinked in `x` is not found in `y`: no lookup that began since then has
returned a file, and no offline session on the cache directory finds one. -/
structure StaysDeleted (p : RemotePath) (x y : Pool ι CallPc (World ρ)) : Prop where
  session : ∀ i parent name, x.tasks i = .lookup parent name →
    y.shared.childPath parent name = .ok p →
      ∀ metadata, y.tasks i ≠ .done (.metadata (.ok metadata))
  offline : World.NotFoundOffline p y.shared.store.disk

variable (view) in
/-- What holds until an `unlink` returns. -/
structure Unlinking (i : ι) (parent : NodeId) (name : Str) (x : Pool ι CallPc (World ρ)) :
    Prop where
  running : Running x
  mirrors : x.shared.store.Mirrors
  unlinks : CallPc.Unlinks view parent name x.shared (x.tasks i)

lemma Unlinking.step (hA : StatsTree R view) (hD : Deletes R view) {i : ι} {parent : NodeId}
    {name : Str} {x : Pool ι CallPc (World ρ)} (move : Move ι ℕ)
    (h : Unlinking view i parent name x) : Unlinking view i parent name (step R x move) := by
  cases move with
  | env d => exact ⟨h.running.step (.env d), h.mirrors, h.unlinks⟩
  | task j =>
      have hsteps := steps_task R x j
      refine ⟨h.running.step (.task j), hsteps.mirrors h.mirrors, ?_⟩
      by_cases hj : i = j
      · subst hj
        rw [Calls.step, Pool.step_task_self]
        exact h.unlinks.step hA hD hsteps h.running.wf
      · rw [Calls.step, Pool.step_task_of_ne hj]
        exact h.unlinks.frame hA hD hsteps h.running.wf

variable (view) in
/-- What holds after an `unlink` of `p` has returned in `x`. -/
structure Unlinked (p : RemotePath) (x y : Pool ι CallPc (World ρ)) : Prop where
  running : Running y
  mirrors : y.shared.store.Mirrors
  gone : view y.shared.conn.remote p.asStr = none
  entry : y.shared.store.entry p.asStr = none
  denied : ∀ i parent name, x.tasks i = .lookup parent name →
    CallPc.Denied p parent name y.shared (y.tasks i)

lemma Unlinked.step (hA : StatsTree R view) (hD : Deletes R view) {p : RemotePath}
    {x : Pool ι CallPc (World ρ)} (y : Pool ι CallPc (World ρ)) (move : Move ι ℕ)
    (hkeep : KeepsDeleted p y move) (h : Unlinked view p x y) :
    Unlinked view p x (step R y move) := by
  cases move with
  | env d =>
      exact ⟨h.running.step (.env d), h.mirrors, h.gone, h.entry, fun i parent name hi =>
        (h.denied i parent name hi).extends (h.running.extends (R := R) (.env d))⟩
  | task j =>
      have hsteps := steps_task R y j
      refine ⟨h.running.step (.task j), hsteps.mirrors h.mirrors, hsteps.view_none hA hD h.gone,
        hsteps.entry_none hkeep h.entry, fun i parent name hi => ?_⟩
      have hdenied := h.denied i parent name hi
      by_cases hj : i = j
      · subst hj
        rw [Calls.step, Pool.step_task_self]
        exact hdenied.step hA hsteps h.running.wf h.gone h.entry
      · rw [Calls.step, Pool.step_task_of_ne hj]
        exact hdenied.extends (hsteps.extends h.running.wf)

omit [DecidableEq ι] in
lemma Unlinked.staysDeleted {p : RemotePath} {x y : Pool ι CallPc (World ρ)}
    (h : Unlinked view p x y) : StaysDeleted p x y where
  session i parent name hi hchild metadata hdone := by
    have hdenied := h.denied i parent name hi
    rw [hdone] at hdenied
    obtain ⟨path, hpath, hne⟩ := hdenied metadata rfl
    rw [hchild] at hpath
    exact hne (Except.ok.inj hpath).symm
  offline := World.notFoundOffline_of_stored ((h.mirrors _).mpr h.entry)

/-- Where the path has no entry in any state, no step has made one. -/
lemma keepsDeleted_of_entries {p : RemotePath} {x : Pool ι CallPc (World ρ)}
    {moves : List (Move ι ℕ)}
    (h : ∀ y, Visits (step R) x moves y → y.shared.store.entry p.asStr = none) :
    AllSteps (step R) (KeepsDeleted p) x moves := by
  induction moves generalizing x with
  | nil => trivial
  | cons move moves ih =>
      refine ⟨?_, ih fun y hy => h y (visits_cons.mpr (.inr hy))⟩
      cases move with
      | env d => trivial
      | task i =>
          intro hins
          refine (steps_task R x i).entry_some hins (h (step R x (.task i)) ?_)
          exact visits_cons.mpr (.inr ⟨[], List.nil_prefix, rfl⟩)

/-- **A deleted file stays deleted** exactly if there is no entry for it when `unlink` returns and
no call makes one afterwards.  The calls run over a mount with any history, in any interleaving;
in `x` the call `i`, an `unlink` of `p`, has returned. -/
theorem unlinked_stays_deleted (hA : StatsTree R view) (hD : Deletes R view) (config : Config)
    (disk : Disk) (conn : Conn ρ) (history : List (Event ρ)) (calls : ι → CallPc)
    (hcalls : ∀ i, (calls i).Begins) (before after : List (Move ι ℕ))
    {x : Pool ι CallPc (World ρ)}
    (hx : x = run (step R)
      ⟨calls, run (World.step R) (World.new config disk conn) history⟩ before)
    {i : ι} {parent : NodeId} {name : Str} (hi : calls i = .unlink parent name)
    (hreturned : x.tasks i = .done (.done (.ok ()))) {p : RemotePath}
    (hp : x.shared.childPath parent name = .ok p) :
    (∀ y, Visits (step R) x after y → StaysDeleted p x y) ↔
      x.shared.store.entry p.asStr = none ∧ AllSteps (step R) (KeepsDeleted p) x after := by
  have hstep : ∀ (y : Pool ι CallPc (World ρ)) move, Unlinking view i parent name y →
      Unlinking view i parent name (step R y move) := fun y move hy => hy.step hA hD move
  have hwf : (run (World.step R) (World.new config disk conn) history).state.Wf :=
    invariant_of_step World.wf_step (State.wf_new config.root) history
  have hmirrors : (run (World.step R) (World.new config disk conn) history).store.Mirrors :=
    invariant_of_step World.mirrors_step (Store.mirrors_new disk config.cacheChunkSize) history
  have hbefore : Unlinking view i parent name x := by
    rw [hx]
    refine invariant_of_step hstep ?_ before
    refine ⟨running_start hcalls hwf, hmirrors, ?_⟩
    show CallPc.Unlinks view parent name _ (calls i)
    rw [hi]
    exact ⟨rfl, rfl⟩
  obtain ⟨child, hchild, hgone⟩ : CallPc.Gone view parent name x.shared := by
    have hunlinks := hbefore.unlinks
    rw [hreturned] at hunlinks
    exact hunlinks rfl
  obtain rfl : p = child := Except.ok.inj (hp.symm.trans hchild)
  obtain ⟨parentPath, -, hjoin⟩ := World.childPath_ok.mp hp
  constructor
  · intro hdeleted
    -- the entries mirror what an offline session finds
    have hentry : ∀ y, Visits (step R) x after y → y.shared.store.entry p.asStr = none := by
      intro y hy
      have hymirrors : y.shared.store.Mirrors := (visits_of_step hstep hbefore hy).mirrors
      exact (hymirrors _).mp (World.stored_of_notFoundOffline hjoin (hdeleted y hy).offline)
    exact ⟨hentry x ⟨[], List.nil_prefix, rfl⟩, keepsDeleted_of_entries hentry⟩
  · rintro ⟨hentry, hkeep⟩ y hy
    have hstart : Unlinked view p x x := by
      refine ⟨hbefore.running, hbefore.mirrors, hgone, hentry, fun j parent' name' hj => ?_⟩
      rw [hj]
      exact ⟨rfl, rfl⟩
    exact (visits_invariant (fun y move => Unlinked.step hA hD y move) hstart hkeep
      hy).staysDeleted

/-! The file `/a` has been looked up once, and the answer has expired.  A `getattr`, the `unlink`
and a later `lookup` follow. -/

def seenA : List (Event Memory) := [.call (.lookup NodeId.root ['a']), .tick (5 * 10 ^ 9)]

/-- The mount before the concurrent calls. -/
def expiredA : World Memory :=
  run (World.step Memory.filesystem) (World.mount World.sampleTree (5 * 10 ^ 9)) seenA

def unlinkCalls : Fin 3 → CallPc
  | 0 => .getattr ⟨2⟩
  | 1 => .unlink NodeId.root ['a']
  | 2 => .lookup NodeId.root ['a']

/-- The `getattr` ends before the `unlink` begins, and the `lookup` runs when the negative entry has
expired. -/
def unlinkLast : List (Move (Fin 3) ℕ) :=
  List.replicate 5 (.task 0) ++ List.replicate 5 (.task 1)

def lookupLater : List (Move (Fin 3) ℕ) := .env (10 ^ 9) :: List.replicate 8 (.task 2)

/-- The `getattr` has asked the remote before the `unlink` begins, and stores the answer after it
has returned. -/
def unlinkBetween : List (Move (Fin 3) ℕ) :=
  List.replicate 3 (.task 0) ++ List.replicate 5 (.task 1)

def storeLate : List (Move (Fin 3) ℕ) :=
  List.replicate 2 (.task 0) ++ .env (10 ^ 9) :: List.replicate 5 (.task 2)

theorem unlinked_stays_deleted_lookupLater :
    (run (step Memory.filesystem) ⟨unlinkCalls, expiredA⟩ unlinkLast).tasks 1 =
        .done (.done (.ok ())) ∧
      ∀ y, Visits (step Memory.filesystem)
          (run (step Memory.filesystem) ⟨unlinkCalls, expiredA⟩ unlinkLast) lookupLater y →
        StaysDeleted World.pathA
          (run (step Memory.filesystem) ⟨unlinkCalls, expiredA⟩ unlinkLast) y := by
  refine ⟨rfl, ?_⟩
  exact (unlinked_stays_deleted Memory.statsTree Memory.mutates.deletes _ _ _ seenA unlinkCalls
    (fun | 0 => trivial | 1 => trivial | 2 => trivial) unlinkLast lookupLater rfl (i := 1) rfl rfl
    (p := World.pathA) rfl).mpr ⟨rfl, by decide⟩

/-- The `lookup` returns the file that has been unlinked: the late answer of the `stat` has brought
its entry back. -/
theorem late_store_revives :
    (run (step Memory.filesystem) ⟨unlinkCalls, expiredA⟩ unlinkBetween).tasks 1 =
        .done (.done (.ok ())) ∧
      ¬ StaysDeleted World.pathA
        (run (step Memory.filesystem) ⟨unlinkCalls, expiredA⟩ unlinkBetween)
        (run (step Memory.filesystem) ⟨unlinkCalls, expiredA⟩ (unlinkBetween ++ storeLate)) :=
  ⟨rfl, fun h => h.session 2 NodeId.root ['a'] rfl rfl _ rfl⟩

end Calls

end CacheShfs
