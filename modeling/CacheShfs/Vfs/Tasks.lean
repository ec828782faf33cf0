import CacheShfs.Store.Concurrent
import CacheShfs.Vfs.Registry

/-!
# Calls, step by step

`lookup`, `getattr`, `read`, `write` and `unlink` as tasks that interleave.  One step is one section
under the lock of the state or of the store, or one call of the remote; the content part of a
`read` is a `ReadTask`.  The objects that a section of the store orphans are deleted with it.

`lookup`, `getattr` and `read` share the steps that confirm a path against the remote; a `Caller`
says for whom they are taken.  The read of an offline session is one step: nothing changes its
store.

A task that runs alone does what the sequential call does (`CallPc.runs_lookup` and the others).
-/

namespace CacheShfs

open Interleave Machine

/-- The call for which a path is confirmed. -/
inductive Caller
  | lookup (parent : NodeId) (name : Str)
  | getattr (node : NodeId)
  | read (file : OpenFile) (offset : UInt64) (size : UInt32)

/-- What a call returns. -/
inductive Answer
  | metadata (result : Except Error FileMetadata)
  | data (result : Except Error Bytes)
  | written (result : Except Error UInt32)
  | done (result : Except Error Unit)

/-- Where a call is.  The first five are calls that have not begun. -/
inductive CallPc
  | lookup (parent : NodeId) (name : Str)
  | getattr (node : NodeId)
  | read (handle : FileHandle) (offset : UInt64) (size : UInt32)
  | write (handle : FileHandle) (offset : UInt64) (data : Bytes)
  | unlink (parent : NodeId) (name : Str)
  /-- The negative entry of a name is looked for. -/
  | negative (parent : NodeId) (name : Str) (child : RemotePath)
  /-- The node of a handle is resolved. -/
  | resolve (file : OpenFile) (offset : UInt64) (size : UInt32)
  | fresh (caller : Caller) (path : RemotePath)
  | cached (caller : Caller) (path : RemotePath)
  | stat (caller : Caller) (path : RemotePath)
  | put (caller : Caller) (path : RemotePath) (attributes : FileAttributes)
  | stamp (caller : Caller) (path : RemotePath) (attributes : FileAttributes)
  | drop (caller : Caller) (path : RemotePath)
  | fallback (caller : Caller) (path : RemotePath) (error : Error)
  | intern (path : RemotePath) (attributes : FileAttributes)
  | negate (parent : NodeId) (name : Str) (answer : Answer)
  | content (task : ReadTask)
  | readThrough (path : RemotePath) (offset : UInt64) (size : UInt32)
  | writeRemote (path : RemotePath) (offset : UInt64) (data : Bytes)
  | invalidate (path : RemotePath) (written : UInt32)
  | unstamp (path : RemotePath) (written : UInt32)
  | unlinkRemote (parent : NodeId) (name : Str) (parentPath child : RemotePath)
  | remove (parent : NodeId) (name : Str) (parentPath child : RemotePath)
  | unlist (parent : NodeId) (name : Str) (parentPath : RemotePath)
  | done (answer : Answer)

/-- The call goes on with attributes of its path. -/
def Caller.served (path : RemotePath) (attributes : FileAttributes) (chunkSize : ℕ) :
    Caller → CallPc
  | .lookup _ _ => .intern path attributes
  | .getattr node => .done (.metadata (.ok ⟨node, attributes⟩))
  | .read file offset size =>
      .content (ReadTask.start ⟨file.path, attributes, offset, size⟩ chunkSize)

/-- The call returns an error. -/
def Caller.rejected (error : Error) : Caller → CallPc
  | .read _ _ _ => .done (.data (.error error))
  | _ => .done (.metadata (.error error))

/-- `getattr` returns the node that it was asked for. -/
lemma World.getattr_node {ρ : Type} {R : RemoteFilesystem ρ} {w w' : World ρ} {node : NodeId}
    {metadata : FileMetadata} (h : w.getattr R node = (.ok metadata, w')) :
    metadata.node = node := by
  unfold World.getattr at h
  split at h
  · cases h
  · split at h
    · cases h
      rfl
    · split at h
      · cases h
      · unfold World.getattrRemote at h
        split at h
        · cases h
          rfl
        · cases h
        · split at h
          · split at h
            · cases h
              rfl
            · cases h
          · cases h

namespace CallPc

variable {ρ : Type} (R : RemoteFilesystem ρ)

/-- Where one step leads. -/
def next (w : World ρ) : CallPc → CallPc × World ρ
  | .lookup parent name =>
      match w.childPath parent name with
      | .ok child => (.negative parent name child, w)
      | .error e => (.done (.metadata (.error e)), w)
  | .getattr node =>
      match w.state.pathOf node with
      | .ok path => (.fresh (.getattr node) path, w)
      | .error e => (.done (.metadata (.error e)), w)
  | .read handle offset size =>
      match w.state.file handle with
      | none => (.done (.data (.error unknownHandle)), w)
      | some file =>
          match w.config.cacheMode with
          | .remote => (.readThrough file.path offset size, w)
          | .offline => (.done (.data (w.store.readCached file.path offset size)), w)
          | .onDemand => (.resolve file offset size, w)
          | .pinned => (.resolve file offset size, w)
  | .write handle offset data =>
      match w.ensureWritable with
      | .error e => (.done (.written (.error e)), w)
      | .ok () =>
          match w.state.file handle with
          | none => (.done (.written (.error unknownHandle)), w)
          | some file => (.writeRemote file.path offset data, w)
  | .unlink parent name =>
      match w.resolve parent name with
      | .ok (parentPath, child) => (.unlinkRemote parent name parentPath child, w)
      | .error e => (.done (.done (.error e)), w)
  | .negative parent name child =>
      if w.freshNegative parent name then (.done (.metadata (.error .notFound)), w)
      else (.fresh (.lookup parent name) child, w)
  | .resolve file offset size =>
      match w.state.pathOf file.node with
      | .ok path => (.fresh (.read file offset size) path, w)
      | .error e => (.done (.data (.error e)), w)
  | .fresh caller path =>
      if w.metadataFresh path then (.cached caller path, w) else (.stat caller path, w)
  | .cached caller path =>
      match w.store.getAttrs path with
      | some attributes => (caller.served path attributes w.store.chunkSize, w)
      | none => if w.offline then (caller.rejected .notFound, w) else (.stat caller path, w)
  | .stat caller path =>
      match w.conn.stat R path with
      | (.ok attributes, conn) => (.put caller path attributes, { w with conn := conn })
      | (.error .notFound, conn) => (.drop caller path, { w with conn := conn })
      | (.error e, conn) => (.fallback caller path e, { w with conn := conn })
  | .put caller path attributes =>
      (.stamp caller path attributes, { w with store := w.store.putAttrs path attributes })
  | .stamp caller path attributes =>
      match caller with
      | .lookup parent name =>
          let (node, state) :=
            ((w.state.stamp path w.conn.now).unnegate parent name).intern path
          (.done (.metadata (.ok ⟨node, attributes⟩)), { w with state := state })
      | caller => (caller.served path attributes w.store.chunkSize,
          { w with state := w.state.stamp path w.conn.now })
  | .drop caller path =>
      match caller with
      | .lookup parent name => (.negate parent name (.metadata (.error .notFound)),
          { w with store := w.store.remove path })
      | caller => (caller.rejected .notFound, { w with store := w.store.remove path })
  | .fallback caller path error =>
      match w.store.getAttrs path with
      | some attributes =>
          if isUnreachable error then (caller.served path attributes w.store.chunkSize, w)
          else (caller.rejected error, w)
      | none => (caller.rejected error, w)
  | .intern path attributes =>
      let (node, state) := w.state.intern path
      (.done (.metadata (.ok ⟨node, attributes⟩)), { w with state := state })
  | .negate parent name answer =>
      (.done answer, { w with state := w.state.negate parent name w.conn.now })
  | .content task =>
      match task.pc with
      | .done answer => (.done (.data answer), w)
      | _ =>
          let (task, s) := task.step R ⟨w.store, w.conn⟩
          (.content task, { w with store := s.store, conn := s.conn })
  | .readThrough path offset size =>
      let (answer, conn) := w.conn.read R path offset.toNat size.toNat
      (.done (.data answer), { w with conn := conn })
  | .writeRemote path offset data =>
      match w.conn.write R path offset data with
      | (.error e, conn) => (.done (.written (.error e)), { w with conn := conn })
      | (.ok written, conn) => (.invalidate path written, { w with conn := conn })
  | .invalidate path written =>
      (.unstamp path written, { w with store := w.store.invalidateContent path })
  | .unstamp path written =>
      (.done (.written (.ok written)), { w with state := w.state.unstamp path })
  | .unlinkRemote parent name parentPath child =>
      match w.conn.unlink R child with
      | (.error e, conn) => (.done (.done (.error e)), { w with conn := conn })
      | (.ok (), conn) => (.remove parent name parentPath child, { w with conn := conn })
  | .remove parent name parentPath child =>
      (.unlist parent name parentPath, { w with store := w.store.remove child })
  | .unlist parent name parentPath =>
      (.negate parent name (.done (.ok ())),
        { w with store := w.store.invalidateChildren parentPath })
  | .done answer => (.done answer, w)

/-! ## What a step can do -/

/-- What one step of a call does to the place it is at and to the world. -/
inductive Steps (R : RemoteFilesystem ρ) (w : World ρ) : CallPc → CallPc → World ρ → Prop
  | lookup {parent name child} (h : w.childPath parent name = .ok child) :
      Steps R w (.lookup parent name) (.negative parent name child) w
  | lookupBad {parent name e} (h : w.childPath parent name = .error e) :
      Steps R w (.lookup parent name) (.done (.metadata (.error e))) w
  | getattr {node path} (h : w.state.path node = some path) :
      Steps R w (.getattr node) (.fresh (.getattr node) path) w
  | getattrBad {node e} (h : w.state.path node = none) :
      Steps R w (.getattr node) (.done (.metadata (.error e))) w
  | read {handle offset size file} (h : w.state.file handle = some file)
      (hmode : w.config.cacheMode = .onDemand ∨ w.config.cacheMode = .pinned) :
      Steps R w (.read handle offset size) (.resolve file offset size) w
  | readDirect {handle offset size file} (h : w.state.file handle = some file)
      (hmode : w.config.cacheMode = .remote) :
      Steps R w (.read handle offset size) (.readThrough file.path offset size) w
  | readOffline {handle offset size file} (h : w.state.file handle = some file)
      (hmode : w.config.cacheMode = .offline) :
      Steps R w (.read handle offset size)
        (.done (.data (w.store.readCached file.path offset size))) w
  | readBad {handle offset size} (h : w.state.file handle = none) :
      Steps R w (.read handle offset size) (.done (.data (.error unknownHandle))) w
  | write {handle offset data file} (h : w.state.file handle = some file) :
      Steps R w (.write handle offset data) (.writeRemote file.path offset data) w
  | writeBad {handle offset data e} :
      Steps R w (.write handle offset data) (.done (.written (.error e))) w
  | unlink {parent name parentPath child} (h : w.resolve parent name = .ok (parentPath, child)) :
      Steps R w (.unlink parent name) (.unlinkRemote parent name parentPath child) w
  | unlinkBad {parent name e} : Steps R w (.unlink parent name) (.done (.done (.error e))) w
  | negativeHit {parent name child} (h : w.freshNegative parent name = true) :
      Steps R w (.negative parent name child) (.done (.metadata (.error .notFound))) w
  | negativeMiss {parent name child} (h : w.freshNegative parent name = false) :
      Steps R w (.negative parent name child) (.fresh (.lookup parent name) child) w
  | resolve {file offset size path} (h : w.state.path file.node = some path) :
      Steps R w (.resolve file offset size) (.fresh (.read file offset size) path) w
  | resolveBad {file offset size e} (h : w.state.path file.node = none) :
      Steps R w (.resolve file offset size) (.done (.data (.error e))) w
  | fresh {caller path} (h : w.metadataFresh path = true) :
      Steps R w (.fresh caller path) (.cached caller path) w
  | expired {caller path} (h : w.metadataFresh path = false) :
      Steps R w (.fresh caller path) (.stat caller path) w
  | cached {caller path attributes} (h : w.store.getAttrs path = some attributes) :
      Steps R w (.cached caller path) (caller.served path attributes w.store.chunkSize) w
  | uncached {caller path} (h : w.store.getAttrs path = none) (honline : w.offline = false) :
      Steps R w (.cached caller path) (.stat caller path) w
  | uncachedOffline {caller path} (h : w.store.getAttrs path = none) (hoffline : w.offline = true) :
      Steps R w (.cached caller path) (caller.rejected .notFound) w
  | statFound {caller path attributes conn} (h : w.conn.stat R path = (.ok attributes, conn)) :
      Steps R w (.stat caller path) (.put caller path attributes) { w with conn := conn }
  | statMissing {caller path conn} (h : w.conn.stat R path = (.error .notFound, conn)) :
      Steps R w (.stat caller path) (.drop caller path) { w with conn := conn }
  | statFailed {caller path e conn} (h : w.conn.stat R path = (.error e, conn))
      (hne : e ≠ .notFound) :
      Steps R w (.stat caller path) (.fallback caller path e) { w with conn := conn }
  | put {caller path attributes} :
      Steps R w (.put caller path attributes) (.stamp caller path attributes)
        { w with store := w.store.putAttrs path attributes }
  | stampLookup {parent name path attributes} :
      Steps R w (.stamp (.lookup parent name) path attributes)
        (.done (.metadata (.ok
          ⟨(((w.state.stamp path w.conn.now).unnegate parent name).intern path).1, attributes⟩)))
        { w with state := (((w.state.stamp path w.conn.now).unnegate parent name).intern path).2 }
  | stamp {caller path attributes} (hcaller : ∀ parent name, caller ≠ .lookup parent name) :
      Steps R w (.stamp caller path attributes)
        (caller.served path attributes w.store.chunkSize)
        { w with state := w.state.stamp path w.conn.now }
  | dropLookup {parent name path} :
      Steps R w (.drop (.lookup parent name) path)
        (.negate parent name (.metadata (.error .notFound)))
        { w with store := w.store.remove path }
  | drop {caller path} (hcaller : ∀ parent name, caller ≠ .lookup parent name) :
      Steps R w (.drop caller path) (caller.rejected .notFound)
        { w with store := w.store.remove path }
  | fallback {caller path e attributes} (h : w.store.getAttrs path = some attributes)
      (he : isUnreachable e = true) :
      Steps R w (.fallback caller path e) (caller.served path attributes w.store.chunkSize) w
  | noFallback {caller path e} : Steps R w (.fallback caller path e) (caller.rejected e) w
  | intern {path attributes} :
      Steps R w (.intern path attributes)
        (.done (.metadata (.ok ⟨(w.state.intern path).1, attributes⟩)))
        { w with state := (w.state.intern path).2 }
  | negate {parent name answer} :
      Steps R w (.negate parent name answer) (.done answer)
        { w with state := w.state.negate parent name w.conn.now }
  | content {a pc pc'} {s : StoreWorld ρ} (hpc : ∀ answer, pc ≠ .done answer)
      (h : ReadTask.Steps R a ⟨w.store, w.conn⟩ pc pc' s) :
      Steps R w (.content ⟨a, pc⟩) (.content ⟨a, pc'⟩) { w with store := s.store, conn := s.conn }
  | contentDone {a answer} :
      Steps R w (.content ⟨a, .done answer⟩) (.done (.data answer)) w
  | readThrough {path offset size answer conn}
      (h : w.conn.read R path offset.toNat size.toNat = (answer, conn)) :
      Steps R w (.readThrough path offset size) (.done (.data answer)) { w with conn := conn }
  | wrote {path offset data written conn}
      (h : w.conn.write R path offset data = (.ok written, conn)) :
      Steps R w (.writeRemote path offset data) (.invalidate path written) { w with conn := conn }
  | writeFailed {path offset data e conn} (h : w.conn.write R path offset data = (.error e, conn)) :
      Steps R w (.writeRemote path offset data) (.done (.written (.error e)))
        { w with conn := conn }
  | invalidate {path written} :
      Steps R w (.invalidate path written) (.unstamp path written)
        { w with store := w.store.invalidateContent path }
  | unstamp {path written} :
      Steps R w (.unstamp path written) (.done (.written (.ok written)))
        { w with state := w.state.unstamp path }
  | unlinked {parent name parentPath child conn} (h : w.conn.unlink R child = (.ok (), conn)) :
      Steps R w (.unlinkRemote parent name parentPath child)
        (.remove parent name parentPath child) { w with conn := conn }
  | unlinkFailed {parent name parentPath child e conn}
      (h : w.conn.unlink R child = (.error e, conn)) :
      Steps R w (.unlinkRemote parent name parentPath child) (.done (.done (.error e)))
        { w with conn := conn }
  | remove {parent name parentPath child} :
      Steps R w (.remove parent name parentPath child) (.unlist parent name parentPath)
        { w with store := w.store.remove child }
  | unlist {parent name parentPath} :
      Steps R w (.unlist parent name parentPath) (.negate parent name (.done (.ok ())))
        { w with store := w.store.invalidateChildren parentPath }
  | idle {answer} : Steps R w (.done answer) (.done answer) w

section Equations

-- the equations of `next` are made here, once, and not by each of the proofs below
attribute [local simp] next

end Equations

lemma steps_next (w : World ρ) (pc : CallPc) : Steps R w pc (pc.next R w).1 (pc.next R w).2 := by
  cases pc with
  | lookup parent name =>
      rw [next]
      split
      · next h => exact .lookup h
      · next h => exact .lookupBad h
  | getattr node =>
      rw [next]
      split
      · next h => exact .getattr (State.pathOf_ok.mp h)
      · next h => exact .getattrBad (State.path_of_pathOf_error h)
  | read handle offset size =>
      rw [next]
      split
      · next h => exact .readBad h
      · next h =>
          split
          · next hmode => exact .readDirect h hmode
          · next hmode => exact .readOffline h hmode
          · next hmode => exact .read h (.inl hmode)
          · next hmode => exact .read h (.inr hmode)
  | write handle offset data =>
      rw [next]
      split
      · exact .writeBad
      · split
        · exact .writeBad
        · next h => exact .write h
  | unlink parent name =>
      rw [next]
      split
      · next h => exact .unlink h
      · exact .unlinkBad
  | negative parent name child =>
      rw [next]
      split
      · next h => exact .negativeHit h
      · next h => exact .negativeMiss (by simpa using h)
  | resolve file offset size =>
      rw [next]
      split
      · next h => exact .resolve (State.pathOf_ok.mp h)
      · next h => exact .resolveBad (State.path_of_pathOf_error h)
  | fresh caller path =>
      rw [next]
      split
      · next h => exact .fresh h
      · next h => exact .expired (by simpa using h)
  | cached caller path =>
      rw [next]
      split
      · next h => exact .cached h
      · next h =>
          split
          · next hoffline => exact .uncachedOffline h hoffline
          · next honline => exact .uncached h (by simpa using honline)
  | stat caller path =>
      rw [next]
      split
      · next h => exact .statFound h
      · next h => exact .statMissing h
      · next hne h => exact .statFailed h fun heq => hne (heq ▸ rfl)
  | put caller path attributes => exact .put
  | stamp caller path attributes =>
      cases caller with
      | lookup parent name => exact .stampLookup
      | getattr node => exact .stamp nofun
      | read file offset size => exact .stamp nofun
  | drop caller path =>
      cases caller with
      | lookup parent name => exact .dropLookup
      | getattr node => exact .drop nofun
      | read file offset size => exact .drop nofun
  | fallback caller path error =>
      rw [next]
      split
      · next h =>
          split
          · next he => exact .fallback h he
          · exact .noFallback
      · exact .noFallback
  | intern path attributes => exact .intern
  | negate parent name answer => exact .negate
  | content task =>
      obtain ⟨a, pc⟩ := task
      rw [next]
      split
      · next answer h =>
          simp only at h
          subst h
          exact .contentDone
      · next hpc =>
          exact .content (fun answer heq => hpc answer heq)
            (ReadTask.steps_next R a ⟨w.store, w.conn⟩ pc)
  | readThrough path offset size => exact .readThrough rfl
  | writeRemote path offset data =>
      rw [next]
      split
      · next h => exact .writeFailed h
      · next h => exact .wrote h
  | invalidate path written => exact .invalidate
  | unstamp path written => exact .unstamp
  | unlinkRemote parent name parentPath child =>
      rw [next]
      split
      · next h => exact .unlinkFailed h
      · next h => exact .unlinked h
  | remove parent name parentPath child => exact .remove
  | unlist parent name parentPath => exact .unlist
  | done answer => exact .idle

/-! ## A call that runs alone -/

/-- Some steps of a call lead from one place to another. -/
def Runs : CallPc × World ρ → CallPc × World ρ → Prop :=
  Relation.ReflTransGen fun x y => y = x.1.next R x.2

variable {R}

lemma Runs.next {pc : CallPc} {w : World ρ} {z : CallPc × World ρ}
    (h : Runs R (pc.next R w) z) : Runs R (pc, w) z :=
  Relation.ReflTransGen.head rfl h

/-- The steps that confirm a path for a caller which has a node for it. -/
lemma runs_getattr_from (caller : Caller) (hcaller : ∀ parent name, caller ≠ .lookup parent name)
    {node : NodeId} {path : RemotePath} (w : World ρ) (hpath : w.state.pathOf node = .ok path) :
    Runs R (.fresh caller path, w)
      (match w.getattr R node with
        | (.ok metadata, w') => (caller.served path metadata.attributes w'.store.chunkSize, w')
        | (.error e, w') => (caller.rejected e, w')) := by
  have hremote : w.freshAttrs path = none → w.offline = false →
      Runs R (.stat caller path, w)
        (match w.getattr R node with
          | (.ok metadata, w') => (caller.served path metadata.attributes w'.store.chunkSize, w')
          | (.error e, w') => (caller.rejected e, w')) := by
    intro hstale honline
    refine Runs.next ?_
    rw [CallPc.next]
    simp only [World.getattr, hpath, hstale, honline, Bool.false_eq_true, if_false,
      World.getattrRemote]
    cases hstat : w.conn.stat R path with
    | mk answer conn =>
        cases answer with
        | ok attributes =>
            refine Runs.next (Runs.next ?_)
            cases caller with
            | lookup parent name => exact absurd rfl (hcaller parent name)
            | _ => exact .refl
        | error e =>
            cases e with
            | notFound =>
                refine Runs.next ?_
                cases caller with
                | lookup parent name => exact absurd rfl (hcaller parent name)
                | _ => exact .refl
            | _ =>
                refine Runs.next ?_
                rw [CallPc.next]
                simp only
                cases w.store.getAttrs path with
                | none => exact .refl
                | some attributes =>
                    simp only
                    split <;> exact .refl
  refine Runs.next ?_
  rw [CallPc.next]
  by_cases hfresh : w.metadataFresh path = true
  · rw [if_pos hfresh]
    refine Runs.next ?_
    rw [CallPc.next]
    cases hattrs : w.store.getAttrs path with
    | some attributes =>
        have hserved : w.freshAttrs path = some attributes :=
          World.freshAttrs_eq_some.mpr ⟨hfresh, hattrs⟩
        simp only [World.getattr, hpath, hserved]
        exact .refl
    | none =>
        have hstale : w.freshAttrs path = none := by simp [World.freshAttrs, hattrs]
        simp only
        by_cases hoffline : w.offline = true
        · simp only [World.getattr, hpath, hstale, hoffline, if_true]
          exact .refl
        · rw [if_neg hoffline]
          exact hremote hstale (by simpa using hoffline)
  · have hstale : w.freshAttrs path = none := by simp [World.freshAttrs, hfresh]
    rw [if_neg hfresh]
    refine hremote hstale ?_
    simp only [World.metadataFresh, Bool.or_eq_true, not_or] at hfresh
    simpa using hfresh.1

/-- The steps of the content part. -/
lemma runs_content {a : ReadArgs} {x : ReadPc × StoreWorld ρ} {answer : Except Error Bytes}
    {s : StoreWorld ρ} (h : ReadTask.Runs R a x (.done answer, s)) (w : World ρ) :
    Runs R (.content ⟨a, x.1⟩, { w with store := x.2.store, conn := x.2.conn })
      (.done (.data answer), { w with store := s.store, conn := s.conn }) := by
  induction h using Relation.ReflTransGen.head_induction_on with
  | refl => exact Runs.next .refl
  | @head x y hstep _ ih =>
      obtain ⟨pc, v⟩ := x
      subst hstep
      cases pc with
      | done answer' => exact ih
      | _ => exact Runs.next ih

/-- **A `getattr` that runs alone** is the sequential one. -/
theorem runs_getattr (w : World ρ) (node : NodeId) :
    Runs R (.getattr node, w)
      (.done (.metadata (w.getattr R node).1), (w.getattr R node).2) := by
  refine Runs.next ?_
  rw [CallPc.next]
  cases hpath : w.state.pathOf node with
  | error e =>
      simp only [World.getattr, hpath]
      exact .refl
  | ok path =>
      have hrest := runs_getattr_from (R := R) (.getattr node) (fun _ _ h => by cases h) w hpath
      cases hget : w.getattr R node with
      | mk answer w' =>
          rw [hget] at hrest
          cases answer with
          | error e => exact hrest
          | ok metadata =>
              have hnode : metadata.node = node := World.getattr_node hget
              obtain ⟨n, attributes⟩ := metadata
              cases hnode
              exact hrest

/-- **A `read` that runs alone** is the sequential one. -/
theorem runs_read (w : World ρ) (handle : FileHandle) (offset : UInt64) (size : UInt32) :
    Runs R (.read handle offset size, w)
      (.done (.data (w.read R handle offset size).1), (w.read R handle offset size).2) := by
  refine Runs.next ?_
  rw [CallPc.next, World.read]
  cases hfile : w.state.file handle with
  | none => exact .refl
  | some file =>
      have hcontent : Runs R (.resolve file offset size, w)
          (.done (.data (w.readContent R file offset size).1),
            (w.readContent R file offset size).2) := by
        refine Runs.next ?_
        rw [CallPc.next, World.readContent]
        cases hpath : w.state.pathOf file.node with
        | error e =>
            simp only [World.getattr, hpath]
            exact .refl
        | ok path =>
            have hrest := runs_getattr_from (R := R) (.read file offset size)
              (fun _ _ h => by cases h) w hpath
            cases hget : w.getattr R file.node with
            | mk answer w' =>
                rw [hget] at hrest
                cases answer with
                | error e => exact hrest
                | ok metadata =>
                    refine hrest.trans ?_
                    exact runs_content (ReadTask.runs_read w'.store w'.conn) w'
      simp only
      cases w.config.cacheMode with
      | remote => exact Runs.next .refl
      | offline => exact .refl
      | onDemand => exact hcontent
      | pinned => exact hcontent

/-- **A `write` that runs alone** is the sequential one. -/
theorem runs_write (w : World ρ) (handle : FileHandle) (offset : UInt64) (data : Bytes) :
    Runs R (.write handle offset data, w)
      (.done (.written (w.write R handle offset data).1), (w.write R handle offset data).2) := by
  refine Runs.next ?_
  rw [CallPc.next, World.write]
  cases w.ensureWritable with
  | error e => exact .refl
  | ok _ =>
      cases w.state.file handle with
      | none => exact .refl
      | some file =>
          refine Runs.next ?_
          rw [CallPc.next]
          simp only
          cases w.conn.write R file.path offset data with
          | mk answer conn =>
              cases answer with
              | error e => exact .refl
              | ok written => exact Runs.next (Runs.next .refl)

/-- **An `unlink` that runs alone** is the sequential one. -/
theorem runs_unlink (w : World ρ) (parent : NodeId) (name : Str) :
    Runs R (.unlink parent name, w)
      (.done (.done (w.unlink R parent name).1), (w.unlink R parent name).2) := by
  refine Runs.next ?_
  rw [CallPc.next, World.unlink]
  cases w.resolve parent name with
  | error e => exact .refl
  | ok paths =>
      obtain ⟨parentPath, child⟩ := paths
      refine Runs.next ?_
      rw [CallPc.next]
      simp only
      cases w.conn.unlink R child with
      | mk answer conn =>
          cases answer with
          | error e => exact .refl
          | ok _ => exact Runs.next (Runs.next (Runs.next .refl))

/-- **A `lookup` that runs alone** is the sequential one. -/
theorem runs_lookup (w : World ρ) (parent : NodeId) (name : Str) :
    Runs R (.lookup parent name, w)
      (.done (.metadata (w.lookup R parent name).1), (w.lookup R parent name).2) := by
  refine Runs.next ?_
  rw [CallPc.next, World.lookup]
  cases hchild : w.childPath parent name with
  | error e => exact .refl
  | ok child =>
      have hremote : Runs R (.stat (.lookup parent name) child, w)
          (.done (.metadata (w.lookupRemote R parent name child).1),
            (w.lookupRemote R parent name child).2) := by
        refine Runs.next ?_
        rw [CallPc.next, World.lookupRemote]
        cases w.conn.stat R child with
        | mk answer conn =>
            cases answer with
            | ok attributes => exact Runs.next (Runs.next .refl)
            | error e =>
                cases e with
                | notFound => exact Runs.next (Runs.next .refl)
                | _ =>
                    refine Runs.next ?_
                    rw [CallPc.next]
                    simp only
                    cases w.store.getAttrs child with
                    | none => exact .refl
                    | some attributes =>
                        simp only [isUnreachable, if_true, Bool.false_eq_true, if_false]
                        first
                        | exact .refl
                        | exact Runs.next .refl
      refine Runs.next ?_
      rw [CallPc.next]
      by_cases hneg : w.freshNegative parent name = true
      · simp only [hneg, if_true]
        exact .refl
      · simp only [hneg, Bool.false_eq_true, if_false]
        refine Runs.next ?_
        rw [CallPc.next]
        by_cases hfresh : w.metadataFresh child = true
        · rw [if_pos hfresh]
          refine Runs.next ?_
          rw [CallPc.next]
          simp only [World.freshAttrs, hfresh, if_true]
          cases w.store.getAttrs child with
          | some attributes => exact Runs.next .refl
          | none =>
              simp only
              split
              · exact .refl
              · exact hremote
        · have honline : w.offline = false := by
            simp only [World.metadataFresh, Bool.or_eq_true, not_or] at hfresh
            simpa using hfresh.1
          simp only [World.freshAttrs, hfresh, Bool.false_eq_true, if_false, honline]
          exact hremote

end CallPc

/-! ## What every step keeps -/

/-- The session goes on: it keeps its configuration and its handles, and what is known of the
paths of nodes stays known. -/
structure World.Extends {ρ : Type} (w w' : World ρ) : Prop where
  config : w'.config = w.config
  chunkSize : w'.store.chunkSize = w.store.chunkSize
  file : ∀ handle, w'.state.file handle = w.state.file handle
  path : ∀ n p, w.state.path n = some p → w'.state.path n = some p

namespace World.Extends

variable {ρ : Type} {w w' w'' : World ρ}

lemma refl (w : World ρ) : w.Extends w := ⟨rfl, rfl, fun _ => rfl, fun _ _ => id⟩

lemma trans (h : w.Extends w') (h' : w'.Extends w'') : w.Extends w'' where
  config := h'.config.trans h.config
  chunkSize := h'.chunkSize.trans h.chunkSize
  file handle := (h'.file handle).trans (h.file handle)
  path n p hp := h'.path n p (h.path n p hp)

lemma childPath (h : w.Extends w') {parent : NodeId} {name : Str} {child : RemotePath}
    (hchild : w.childPath parent name = .ok child) : w'.childPath parent name = .ok child := by
  obtain ⟨p, hp, hjoin⟩ := childPath_ok.mp hchild
  exact childPath_ok.mpr ⟨p, h.path parent p hp, hjoin⟩

end World.Extends

/-- The path that a call works on is the one that its arguments lead to. -/
def Caller.Resolves {ρ : Type} (path : RemotePath) (w : World ρ) : Caller → Prop
  | .lookup parent name => w.childPath parent name = .ok path
  | .getattr node => w.state.path node = some path
  | .read file _ _ => w.state.path file.node = some path

lemma Caller.Resolves.extends {ρ : Type} {w w' : World ρ} {caller : Caller} {path : RemotePath}
    (h : caller.Resolves path w) (hext : w.Extends w') : caller.Resolves path w' := by
  cases caller with
  | lookup parent name => exact hext.childPath h
  | getattr node => exact hext.path _ _ h
  | read file offset size => exact hext.path _ _ h

namespace CallPc

variable {ρ : Type} {R : RemoteFilesystem ρ} {w w' : World ρ} {pc pc' : CallPc}

/-- What a call has resolved stays so. -/
def Resolved (w : World ρ) : CallPc → Prop
  | .negative parent name child => w.childPath parent name = .ok child
  | .fresh caller path => caller.Resolves path w
  | .cached caller path => caller.Resolves path w
  | .stat caller path => caller.Resolves path w
  | .put caller path _ => caller.Resolves path w
  | .stamp caller path _ => caller.Resolves path w
  | .drop caller path => caller.Resolves path w
  | .fallback caller path _ => caller.Resolves path w
  | .negate parent name _ => ∃ child, w.childPath parent name = .ok child
  | .unlinkRemote parent name _ child => w.childPath parent name = .ok child
  | .remove parent name _ child => w.childPath parent name = .ok child
  | .unlist parent name _ => ∃ child, w.childPath parent name = .ok child
  | _ => True

lemma Resolved.extends (h : pc.Resolved w) (hext : w.Extends w') : pc.Resolved w' := by
  cases pc with
  | negative parent name child => exact hext.childPath h
  | fresh caller path => exact Caller.Resolves.extends h hext
  | cached caller path => exact Caller.Resolves.extends h hext
  | stat caller path => exact Caller.Resolves.extends h hext
  | put caller path attributes => exact Caller.Resolves.extends h hext
  | stamp caller path attributes => exact Caller.Resolves.extends h hext
  | drop caller path => exact Caller.Resolves.extends h hext
  | fallback caller path error => exact Caller.Resolves.extends h hext
  | negate parent name answer => exact h.imp fun _ => hext.childPath
  | unlinkRemote parent name parentPath child => exact hext.childPath h
  | remove parent name parentPath child => exact hext.childPath h
  | unlist parent name parentPath => exact h.imp fun _ => hext.childPath
  | _ => trivial

lemma resolved_served (caller : Caller) (path : RemotePath) (attributes : FileAttributes)
    (chunkSize : ℕ) (w : World ρ) : (caller.served path attributes chunkSize).Resolved w := by
  cases caller <;> trivial

lemma resolved_rejected (caller : Caller) (e : Error) (w : World ρ) :
    (caller.rejected e).Resolved w := by
  cases caller <;> trivial

lemma Steps.extends (h : Steps R w pc pc' w') (hw : w.state.Wf) : w.Extends w' := by
  cases h with
  | put => exact ⟨rfl, Store.putAttrs_chunkSize _ _ _, fun _ => rfl, fun _ _ => id⟩
  | @stampLookup parent name path attributes =>
      refine ⟨rfl, rfl, fun _ => by simp, fun n p hp => ?_⟩
      exact ((hw.stamp path w.conn.now).unnegate parent name).path_intern path hp
  | stamp _ => exact ⟨rfl, rfl, fun _ => rfl, fun _ _ => id⟩
  | dropLookup => exact ⟨rfl, Store.remove_chunkSize _ _, fun _ => rfl, fun _ _ => id⟩
  | drop _ => exact ⟨rfl, Store.remove_chunkSize _ _, fun _ => rfl, fun _ _ => id⟩
  | @intern path attributes =>
      exact ⟨rfl, rfl, fun _ => by simp, fun n p hp => hw.path_intern path hp⟩
  | content _ h => exact ⟨rfl, h.chunkSize, fun _ => rfl, fun _ _ => id⟩
  | invalidate => exact ⟨rfl, Store.invalidateContent_chunkSize _ _, fun _ => rfl, fun _ _ => id⟩
  | remove => exact ⟨rfl, Store.remove_chunkSize _ _, fun _ => rfl, fun _ _ => id⟩
  | unlist => exact ⟨rfl, Store.invalidateChildren_chunkSize _ _, fun _ => rfl, fun _ _ => id⟩
  | _ => exact ⟨rfl, rfl, fun _ => rfl, fun _ _ => id⟩

lemma Steps.wf (h : Steps R w pc pc' w') (hw : w.state.Wf) (hres : pc.Resolved w) :
    w'.state.Wf := by
  cases h with
  | @stampLookup parent name path attributes =>
      exact ((hw.stamp path w.conn.now).unnegate parent name).intern path
  | stamp _ => exact hw.stamp _ _
  | @intern path attributes => exact hw.intern path
  | negate =>
      obtain ⟨child, hchild⟩ := hres
      obtain ⟨p, hp, -⟩ := World.childPath_ok.mp hchild
      exact hw.negate hp _ _
  | unstamp => exact hw.unstamp _
  | _ => exact hw

/-- A call stays resolved as it goes on. -/
lemma Steps.resolved (h : Steps R w pc pc' w') (hw : w.state.Wf) (hres : pc.Resolved w) :
    pc'.Resolved w' := by
  have hext := h.extends hw
  cases h with
  | lookup hchild => exact hchild
  | getattr hpath => exact hpath
  | unlink hresolve =>
      obtain ⟨hp, hjoin⟩ := World.resolve_ok hresolve
      exact World.childPath_ok.mpr ⟨_, hp, hjoin⟩
  | negativeMiss _ => exact hres
  | resolve hpath => exact hpath
  | fresh _ => exact hres
  | expired _ => exact hres
  | cached _ => exact resolved_served _ _ _ _ _
  | uncached _ _ => exact hres
  | uncachedOffline _ _ => exact resolved_rejected _ _ _
  | statFound _ => exact Caller.Resolves.extends hres hext
  | statMissing _ => exact Caller.Resolves.extends hres hext
  | statFailed _ _ => exact Caller.Resolves.extends hres hext
  | put => exact Caller.Resolves.extends hres hext
  | stamp _ => exact resolved_served _ _ _ _ _
  | dropLookup => exact ⟨_, hext.childPath hres⟩
  | drop _ => exact resolved_rejected _ _ _
  | fallback _ _ => exact resolved_served _ _ _ _ _
  | noFallback => exact resolved_rejected _ _ _
  | unlinked _ => exact hext.childPath hres
  | remove => exact ⟨_, hext.childPath hres⟩
  | unlist => exact hres.imp fun _ => hext.childPath
  | _ => trivial

/-- A call that has not begun. -/
def Begins : CallPc → Prop
  | .lookup _ _ => True
  | .getattr _ => True
  | .read _ _ _ => True
  | .write _ _ _ => True
  | .unlink _ _ => True
  | _ => False

lemma Begins.resolved (h : pc.Begins) (w : World ρ) : pc.Resolved w := by
  cases pc with
  | lookup parent name => trivial
  | getattr node => trivial
  | read handle offset size => trivial
  | write handle offset data => trivial
  | unlink parent name => trivial
  | _ => exact h.elim

end CallPc

/-! ## Any number of calls -/

namespace Calls

variable {ρ ι : Type} [DecidableEq ι] {R : RemoteFilesystem ρ}

/-- Runs of three calls are indexed by `Fin 3`. -/
instance neZero_three : NeZero 3 := ⟨by decide⟩

/-- Time passes. -/
def tick (d : ℕ) (w : World ρ) : World ρ :=
  { w with conn := { w.conn with now := w.conn.now + d } }

def step (R : RemoteFilesystem ρ) (x : Pool ι CallPc (World ρ)) (m : Move ι ℕ) :
    Pool ι CallPc (World ρ) :=
  x.step (fun pc w => pc.next R w) tick m

/-- What holds of every pool of calls: the registry is well formed, and what a call has resolved
is so. -/
structure Running (x : Pool ι CallPc (World ρ)) : Prop where
  wf : x.shared.state.Wf
  resolved : ∀ i, (x.tasks i).Resolved x.shared

variable {x : Pool ι CallPc (World ρ)}

omit [DecidableEq ι] in
lemma steps_task (R : RemoteFilesystem ρ) (x : Pool ι CallPc (World ρ)) (i : ι) :
    CallPc.Steps R x.shared (x.tasks i) ((x.tasks i).next R x.shared).1
      ((x.tasks i).next R x.shared).2 :=
  CallPc.steps_next R x.shared (x.tasks i)

/-- The session goes on with every move. -/
lemma Running.extends (hx : Running x) (m : Move ι ℕ) : x.shared.Extends (step R x m).shared := by
  cases m with
  | env d => exact ⟨rfl, rfl, fun _ => rfl, fun _ _ => id⟩
  | task i => exact (steps_task R x i).extends hx.wf

lemma Running.step (hx : Running x) (m : Move ι ℕ) : Running (step R x m) := by
  have hext := hx.extends (R := R) m
  cases m with
  | env d => exact ⟨hx.wf, fun i => (hx.resolved i).extends hext⟩
  | task i =>
      refine ⟨(steps_task R x i).wf hx.wf (hx.resolved i), fun j => ?_⟩
      by_cases hj : j = i
      · subst hj
        rw [Calls.step, Pool.step_task_self]
        exact (steps_task R x j).resolved hx.wf (hx.resolved j)
      · rw [Calls.step, Pool.step_task_of_ne hj]
        exact (hx.resolved j).extends hext

omit [DecidableEq ι] in
lemma running_start {calls : ι → CallPc} (hcalls : ∀ i, (calls i).Begins) {w : World ρ}
    (hw : w.state.Wf) : Running ⟨calls, w⟩ :=
  ⟨hw, fun i => (hcalls i).resolved w⟩

end Calls

end CacheShfs
