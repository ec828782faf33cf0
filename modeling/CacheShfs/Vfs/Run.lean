import CacheShfs.Lib.Machine
import CacheShfs.Remote.Memory
import CacheShfs.Vfs.Ops

/-!
# Sequential runs of a mount

A run is a list of events: calls of the mount, advances of the clock, changes made to the
remote by others, and restarts over the same cache directory.  `World.step` is total; what a
result assumes of its runs (no changes by others, say) is a condition on the events.

`Outcome` says once what a call can do to the world.  Every invariant of the later modules is
proved by cases on it; only the answers of a call are read off its definition.
-/

namespace CacheShfs

/-- A call of `VirtualFilesystem`. -/
inductive Call
  | lookup (parent : NodeId) (name : Str)
  | getattr (node : NodeId)
  | readdir (node : NodeId)
  | openFile (node : NodeId) (flags : OpenFlags)
  | read (handle : FileHandle) (offset : UInt64) (size : UInt32)
  | write (handle : FileHandle) (offset : UInt64) (data : Bytes)
  | flush (handle : FileHandle)
  | release (handle : FileHandle)
  | create (parent : NodeId) (name : Str) (mode : UInt32) (flags : OpenFlags)
  | mkdir (parent : NodeId) (name : Str) (mode : UInt32)
  | unlink (parent : NodeId) (name : Str)
  | rmdir (parent : NodeId) (name : Str)
  | rename (parent : NodeId) (name : Str) (newParent : NodeId) (newName : Str)
  | setattr (node : NodeId) (attributes : SetAttributes)

/-- The mutating calls of a mount; `open` is one where it truncates. -/
def Call.Mutates : Call → Prop
  | .write _ _ _ | .create _ _ _ _ | .mkdir _ _ _ | .unlink _ _ | .rmdir _ _ | .rename _ _ _ _
  | .setattr _ _ => True
  | .openFile _ flags => flags.truncate = true
  | _ => False

/-- What can happen to a mount. -/
inductive Event (ρ : Type)
  | call (call : Call)
  /-- The clock advances. -/
  | tick (nanoseconds : ℕ)
  /-- The remote is changed by somebody else. -/
  | external (remote : ρ)
  /-- The mount is closed and opened again on the same cache directory. -/
  | restart (config : Config)

namespace World

variable {ρ : Type} (R : RemoteFilesystem ρ)

/-- The world after a call. -/
def exec (w : World ρ) : Call → World ρ
  | .lookup parent name => (w.lookup R parent name).2
  | .getattr node => (w.getattr R node).2
  | .readdir node => (w.readdir R node).2
  | .openFile node flags => (w.openFile R node flags).2
  | .read handle offset size => (w.read R handle offset size).2
  | .write handle offset data => (w.write R handle offset data).2
  | .flush handle => (w.flush handle).2
  | .release handle => (w.release handle).2
  | .create parent name mode flags => (w.create R parent name mode flags).2
  | .mkdir parent name mode => (w.mkdir R parent name mode).2
  | .unlink parent name => (w.unlink R parent name).2
  | .rmdir parent name => (w.rmdir R parent name).2
  | .rename parent name newParent newName => (w.rename R parent name newParent newName).2
  | .setattr node attributes => (w.setattr R node attributes).2

def step (w : World ρ) : Event ρ → World ρ
  | .call call => w.exec R call
  | .tick d => { w with conn := { w.conn with now := w.conn.now + d } }
  | .external remote => { w with conn := { w.conn with remote := remote } }
  | .restart config => World.new config w.store.disk w.conn

/-- An event of the session. -/
def InSession : Event ρ → Prop
  | .restart _ => False
  | _ => True

instance (e : Event ρ) : Decidable (InSession e) :=
  match e with
  | .restart _ => isFalse id
  | .call _ => isTrue trivial
  | .tick _ => isTrue trivial
  | .external _ => isTrue trivial

end World

/-- A path is the child of a path that has a node. -/
def State.HasChild (st : State) (child : RemotePath) : Prop :=
  ∃ n p name, st.path n = some p ∧ p.join name = .ok child

/-- The registry after some paths with a property have been interned. -/
inductive Interns (P : RemotePath → Prop) : State → State → Prop
  | refl (st : State) : Interns P st st
  | intern {st st' : State} {path : RemotePath} (hpath : P path) (h : Interns P st st') :
      Interns P st (st'.intern path).2

namespace Interns

variable {P : RemotePath → Prop} {st st' : State}

lemma trans {st'' : State} (h : Interns P st st') (h' : Interns P st' st'') :
    Interns P st st'' := by
  induction h' with
  | refl => exact h
  | intern hpath _ ih => exact .intern hpath ih

lemma validatedAt (h : Interns P st st') (p : RemotePath) :
    st'.validatedAt p = st.validatedAt p := by
  induction h with
  | refl => rfl
  | intern _ _ ih => rw [State.validatedAt_intern, ih]

lemma negativeAt (h : Interns P st st') (key : NodeId × Str) :
    st'.negativeAt key = st.negativeAt key := by
  induction h with
  | refl => rfl
  | intern _ _ ih => rw [State.negativeAt_intern, ih]

lemma file (h : Interns P st st') (handle : FileHandle) : st'.file handle = st.file handle := by
  induction h with
  | refl => rfl
  | intern _ _ ih => rw [State.file_intern, ih]

lemma nextHandle (h : Interns P st st') : st'.nextHandle = st.nextHandle := by
  induction h with
  | refl => rfl
  | intern _ _ ih => rw [State.nextHandle_intern, ih]

lemma wf (h : Interns P st st') (hw : st.Wf) : st'.Wf := by
  induction h with
  | refl => exact hw
  | @intern _ path _ _ ih => exact ih.intern path

lemma path (h : Interns P st st') (hw : st.Wf) {n : NodeId} {p : RemotePath}
    (hp : st.path n = some p) : st'.path n = some p := by
  induction h with
  | refl => exact hp
  | @intern _ path _ h ih => exact (h.wf hw).path_intern path ih

/-- Only new nodes get a path. -/
lemma path_of {n : NodeId} {p : RemotePath} (h : Interns P st st') (hn : n.val < st.nextNode)
    (hp : st'.path n = some p) : st.path n = some p := by
  suffices hs : st.nextNode ≤ st'.nextNode ∧ (st'.path n = some p → st.path n = some p) from
    hs.2 hp
  clear hp
  induction h with
  | refl => exact ⟨le_refl _, id⟩
  | @intern _ path _ h ih =>
      exact ⟨le_trans ih.1 (State.nextNode_le_intern path _),
        fun hp => ih.2 (State.path_of_intern (lt_of_lt_of_le hn ih.1) hp)⟩

/-- A node has the path it had, or one of those interned. -/
lemma path_cases {n : NodeId} {p : RemotePath} (h : Interns P st st')
    (hp : st'.path n = some p) : st.path n = some p ∨ P p := by
  induction h with
  | refl => exact .inl hp
  | intern hpath _ ih =>
      rcases State.path_intern_cases hp with hold | ⟨rfl, -⟩
      · exact ih hold
      · exact .inr hpath

end Interns

/-- The change that a call asks the remote for. -/
def World.Asks {ρ : Type} (w : World ρ) : Call → Mutation → Prop
  | .write handle offset data, m =>
      ∃ file, w.state.file handle = some file ∧ m = .write file.path offset data
  | .create parent name mode _, m =>
      ∃ path, w.childPath parent name = .ok path ∧ m = .create path mode
  | .mkdir parent name mode, m =>
      ∃ path, w.childPath parent name = .ok path ∧ m = .mkdir path mode
  | .unlink parent name, m => ∃ path, w.childPath parent name = .ok path ∧ m = .unlink path
  | .rmdir parent name, m => ∃ path, w.childPath parent name = .ok path ∧ m = .rmdir path
  | .rename parent name newParent newName, m => ∃ src dst, w.childPath parent name = .ok src ∧
      w.childPath newParent newName = .ok dst ∧ m = .rename src dst
  | .setattr node attributes, m =>
      ∃ path, w.state.path node = some path ∧ m = .setattr path attributes
  | .openFile node flags, m => flags.truncate = true ∧
      ∃ path, w.state.path node = some path ∧ m = .setattr path { size := some 0 }
  | _, _ => False

lemma World.mutates_of_asks {ρ : Type} {w : World ρ} {call : Call} {m : Mutation}
    (h : w.Asks call m) : call.Mutates := by
  cases call with
  | openFile node flags => exact h.1
  | lookup _ _ | getattr _ | readdir _ | read _ _ _ | flush _ | release _ => exact h.elim
  | _ => trivial

/-- A request to the remote, made for a call, that has been answered with an error. -/
inductive Failed {ρ : Type} (R : RemoteFilesystem ρ) (w : World ρ) (call : Call) : Conn ρ → Prop
  | stat {p e conn} (h : w.conn.stat R p = (.error e, conn)) : Failed R w call conn
  | readDir {p e conn} (h : w.conn.readDir R p = (.error e, conn)) : Failed R w call conn
  | asked {m : Mutation} {e request} (hasks : w.Asks call m)
      (hanswer : (m.run R w.conn.remote).1 = .error e) :
      Failed R w call (w.conn.record request (m.run R w.conn.remote).2)

open World in
/-- What a call can do to the world. -/
inductive Outcome {ρ : Type} (R : RemoteFilesystem ρ) (w : World ρ) : Call → World ρ → Prop
  /-- The call is answered from what is known. -/
  | known {call st} (hst : Interns w.state.HasChild w.state st) :
      Outcome R w call { w with state := st }
  /-- The remote answers with an error, and the cache is left as it is. -/
  | failed {call conn st} (hfail : Failed R w call conn)
      (hst : Interns w.state.HasChild w.state st) :
      Outcome R w call { w with conn := conn, state := st }
  | lookupFound {parent name child attributes conn} (honline : w.offline = false)
      (hchild : w.childPath parent name = .ok child)
      (hneg : w.freshNegative parent name = false) (hstale : w.freshAttrs child = none)
      (hstat : w.conn.stat R child = (.ok attributes, conn)) :
      Outcome R w (.lookup parent name)
        { w with
          conn := conn
          store := w.store.putAttrs child attributes
          state := (((w.state.stamp child conn.now).unnegate parent name).intern child).2 }
  | lookupMissing {parent name child conn} (honline : w.offline = false)
      (hchild : w.childPath parent name = .ok child)
      (hstat : w.conn.stat R child = (.error .notFound, conn)) :
      Outcome R w (.lookup parent name)
        { w with
          conn := conn
          store := w.store.remove child
          state := w.state.negate parent name conn.now }
  | getattrFound {node path attributes conn} (honline : w.offline = false)
      (hpath : w.state.path node = some path) (hstale : w.freshAttrs path = none)
      (hstat : w.conn.stat R path = (.ok attributes, conn)) :
      Outcome R w (.getattr node)
        { w with
          conn := conn
          store := w.store.putAttrs path attributes
          state := w.state.stamp path conn.now }
  | getattrMissing {node path conn} (honline : w.offline = false)
      (hpath : w.state.path node = some path)
      (hstat : w.conn.stat R path = (.error .notFound, conn)) :
      Outcome R w (.getattr node) { w with conn := conn, store := w.store.remove path }
  /-- A listing, all of whose names are path components. -/
  | listed {node path entries conn result st} (honline : w.offline = false)
      (hpath : w.state.path node = some path)
      (hcache : (if w.metadataFresh path then w.readdirFromCache path else none) = none)
      (hread : w.conn.readDir R path = (.ok entries, conn))
      (hst : stampChildren path conn.now (realChildren entries) w.state = (.ok result, st)) :
      Outcome R w (.readdir node)
        { w with
          conn := conn
          store := w.store.recordListing path (realChildren entries)
          state := st.stamp path conn.now }
  /-- A listing with a name that is no path component. -/
  | listedPartly {node path entries conn e st} (honline : w.offline = false)
      (hpath : w.state.path node = some path)
      (hcache : (if w.metadataFresh path then w.readdirFromCache path else none) = none)
      (hread : w.conn.readDir R path = (.ok entries, conn))
      (hst : stampChildren path conn.now (realChildren entries) w.state = (.error e, st)) :
      Outcome R w (.readdir node)
        { w with
          conn := conn
          store := w.store.recordListing path (realChildren entries)
          state := st }
  | opened {node flags path} (hpath : w.state.path node = some path) :
      Outcome R w (.openFile node flags)
        { w with state := (w.state.openHandle node path).2 }
  | truncated {node flags path attributes conn} (htruncate : flags.truncate = true)
      (hpath : w.state.path node = some path)
      (hset : w.conn.setattr R path { size := some 0 } = (.ok attributes, conn)) :
      Outcome R w (.openFile node flags)
        { w with
          conn := conn
          store := w.store.invalidateContent path
          state := ((w.state.unstamp path).openHandle node path).2 }
  | readThrough {handle offset size file} (hfile : w.state.file handle = some file)
      (hmode : w.config.cacheMode = .remote) :
      Outcome R w (.read handle offset size)
        { w with conn := (w.conn.read R file.path offset.toNat size.toNat).2 }
  | readRejected {handle offset size file w'} (hfile : w.state.file handle = some file)
      (hmode : w.config.cacheMode = .onDemand ∨ w.config.cacheMode = .pinned)
      (hattr : Outcome R w (.getattr file.node) w') :
      Outcome R w (.read handle offset size) w'
  | readContent {handle offset size file metadata w'} (hfile : w.state.file handle = some file)
      (hmode : w.config.cacheMode = .onDemand ∨ w.config.cacheMode = .pinned)
      (hattr : Outcome R w (.getattr file.node) w')
      (hok : w.getattr R file.node = (.ok metadata, w')) :
      Outcome R w (.read handle offset size)
        { w' with
          store := (w'.store.read R file.path metadata.attributes offset size w'.conn).2.1
          conn := (w'.store.read R file.path metadata.attributes offset size w'.conn).2.2 }
  | wrote {handle offset data file written conn} (hfile : w.state.file handle = some file)
      (hwrite : w.conn.write R file.path offset data = (.ok written, conn)) :
      Outcome R w (.write handle offset data)
        { w with
          conn := conn
          store := w.store.invalidateContent file.path
          state := w.state.unstamp file.path }
  | released {handle} : Outcome R w (.release handle) { w with state := w.state.close handle }
  | created {parent name mode flags parentPath child attributes conn}
      (hres : w.resolve parent name = .ok (parentPath, child))
      (hcreate : w.conn.create R child mode = (.ok attributes, conn)) {node st}
      (hst : ((w.state.stamp child conn.now).unnegate parent name).intern child = (node, st)) :
      Outcome R w (.create parent name mode flags)
        { w with
          conn := conn
          store := (w.store.putAttrs child attributes).invalidateChildren parentPath
          state := (st.openHandle node child).2 }
  | madeDir {parent name mode parentPath child attributes conn}
      (hres : w.resolve parent name = .ok (parentPath, child))
      (hmkdir : w.conn.mkdir R child mode = (.ok attributes, conn)) :
      Outcome R w (.mkdir parent name mode)
        { w with
          conn := conn
          store := (w.store.putAttrs child attributes).invalidateChildren parentPath
          state := (((w.state.stamp child conn.now).unnegate parent name).intern child).2 }
  | unlinked {parent name parentPath child conn}
      (hres : w.resolve parent name = .ok (parentPath, child))
      (hunlink : w.conn.unlink R child = (.ok (), conn)) :
      Outcome R w (.unlink parent name) (w.forget parent name parentPath child conn)
  | removedDir {parent name parentPath child conn}
      (hres : w.resolve parent name = .ok (parentPath, child))
      (hrmdir : w.conn.rmdir R child = (.ok (), conn)) :
      Outcome R w (.rmdir parent name) (w.forget parent name parentPath child conn)
  | renamed {parent name newParent newName srcParent dstParent src dst conn}
      (hres : w.resolveRename parent name newParent newName =
        .ok (srcParent, dstParent, src, dst))
      (hrename : w.conn.rename R src dst = (.ok (), conn)) :
      Outcome R w (.rename parent name newParent newName)
        { w with
          conn := conn
          store :=
            ((w.store.rename src dst).invalidateChildren srcParent).invalidateChildren dstParent
          state := (((w.state.renamePath src dst).unstamp src).negate parent name
            conn.now).unnegate newParent newName }
  | setattrDone {node set path attributes conn} (hwritable : w.ensureWritable = .ok ())
      (hpath : w.state.path node = some path)
      (hset : w.conn.setattr R path set = (.ok attributes, conn)) :
      Outcome R w (.setattr node set)
        { w with
          conn := conn
          store := w.store.putAttrs path attributes
          state := w.state.stamp path conn.now }

namespace World

variable {ρ : Type} (R : RemoteFilesystem ρ) (w : World ρ)

lemma interns_internChildren {P : RemotePath → Prop}
    (children : List (Str × RemotePath × FileAttributes)) (hP : ∀ c ∈ children, P c.2.1)
    (st : State) : Interns P st (internChildren children st).2 := by
  induction children generalizing st with
  | nil => exact .refl st
  | cons c rest ih =>
      obtain ⟨name, child, attributes⟩ := c
      have hrest := ih (fun c hc => hP c (List.mem_cons_of_mem _ hc)) (st.intern child).2
      exact (Interns.intern (hP _ List.mem_cons_self) (.refl st)).trans hrest

/-- The cached children are the names of the listing that have attributes. -/
lemma mem_cachedChildren {path : RemotePath} {s : Store} {names : List Str}
    {children : List (Str × RemotePath × FileAttributes)}
    (h : cachedChildren path s names = some children) {c : Str × RemotePath × FileAttributes} :
    c ∈ children ↔ c.1 ∈ names ∧ path.join c.1 = .ok c.2.1 ∧ s.getAttrs c.2.1 = some c.2.2 := by
  induction names generalizing children with
  | nil =>
      cases h
      simp
  | cons name names ih =>
      unfold cachedChildren at h
      split at h
      · cases h
      · next child hjoin =>
          split at h
          · cases h
          · next rest hrest =>
              have hrest := ih hrest
              split at h
              · next attributes hattrs =>
                  cases h
                  rw [List.mem_cons, hrest, List.mem_cons]
                  constructor
                  · rintro (rfl | ⟨hmem, hc⟩)
                    · exact ⟨.inl rfl, hjoin, hattrs⟩
                    · exact ⟨.inr hmem, hc⟩
                  · rintro ⟨hname | hmem, hc, hstored⟩
                    · rw [hname, hjoin] at hc
                      obtain hchild := Except.ok.inj hc
                      rw [← hchild, hattrs] at hstored
                      have hsame : c.2 = (child, attributes) :=
                        Prod.ext hchild.symm (Option.some.inj hstored).symm
                      exact .inl (Prod.ext hname hsame)
                    · exact .inr ⟨hmem, hc, hstored⟩
              · next hattrs =>
                  cases h
                  rw [hrest, List.mem_cons]
                  constructor
                  · exact fun ⟨hmem, hc⟩ => ⟨.inr hmem, hc⟩
                  · rintro ⟨hname | hmem, hc, hstored⟩
                    · rw [hname, hjoin] at hc
                      rw [← Except.ok.inj hc, hattrs] at hstored
                      cases hstored
                    · exact ⟨hmem, hc, hstored⟩

/-- The cached children are children. -/
lemma cachedChildren_join {path : RemotePath} {s : Store} {names : List Str}
    {children : List (Str × RemotePath × FileAttributes)}
    (h : cachedChildren path s names = some children) :
    ∀ c ∈ children, path.join c.1 = .ok c.2.1 :=
  fun _ hc => ((mem_cachedChildren h).mp hc).2.1

/-- A name that is no path component makes a cached listing unusable. -/
lemma cachedChildren_valid {path : RemotePath} {s : Store} {names : List Str}
    {children : List (Str × RemotePath × FileAttributes)}
    (h : cachedChildren path s names = some children) : ∀ name ∈ names, ValidComponent name := by
  induction names generalizing children with
  | nil => simp
  | cons name names ih =>
      unfold cachedChildren at h
      split at h
      · cases h
      · next child hjoin =>
          split at h
          · cases h
          · next rest hrest =>
              intro x hx
              rcases List.mem_cons.mp hx with rfl | hx
              · exact (RemotePath.join_ok_iff.mp hjoin).1
              · exact ih hrest x hx

/-- No other name does. -/
lemma cachedChildren_of_valid (path : RemotePath) (s : Store) {names : List Str}
    (hvalid : ∀ name ∈ names, ValidComponent name) :
    ∃ children, cachedChildren path s names = some children := by
  induction names with
  | nil => exact ⟨[], rfl⟩
  | cons name names ih =>
      obtain ⟨rest, hrest⟩ := ih fun x hx => hvalid x (List.mem_cons_of_mem _ hx)
      unfold cachedChildren
      rw [path.join_eq_ok (hvalid name List.mem_cons_self)]
      simp only [hrest]
      split
      · exact ⟨_, rfl⟩
      · exact ⟨_, rfl⟩

/-- A listing from the cache is made of the stored names that have stored attributes. -/
lemma readdirFromCache_ok {w w' : World ρ} {path : RemotePath} {entries : List DirectoryEntry}
    (h : w.readdirFromCache path = some (entries, w')) :
    ∃ names children, w.store.getChildren path = some names ∧
      cachedChildren path w.store names = some children ∧
      entries = (internChildren children w.state).1 ∧
      w' = { w with state := (internChildren children w.state).2 } := by
  unfold readdirFromCache at h
  split at h
  · cases h
  · next names hnames =>
      split at h
      · cases h
      · next children hchildren =>
          cases h
          exact ⟨names, children, hnames, hchildren, rfl, rfl⟩

lemma readdirFromCache_world {w w' : World ρ} {node : NodeId} {path : RemotePath}
    {entries : List DirectoryEntry} (hpath : w.state.path node = some path)
    (h : w.readdirFromCache path = some (entries, w')) :
    ∃ st, Interns w.state.HasChild w.state st ∧ w' = { w with state := st } := by
  obtain ⟨names, children, -, hchildren, -, rfl⟩ := readdirFromCache_ok h
  refine ⟨_, interns_internChildren children (fun c hc => ?_) w.state, rfl⟩
  exact ⟨node, path, c.1, hpath, cachedChildren_join hchildren c hc⟩

lemma outcome_same (call : Call) : Outcome R w call w := .known (.refl w.state)

lemma outcome_failed {call : Call} {conn : Conn ρ} (h : Failed R w call conn) :
    Outcome R w call { w with conn := conn } := .failed h (.refl w.state)

lemma hasChild_of_childPath {w : World ρ} {parent : NodeId} {name : Str} {child : RemotePath}
    (h : w.childPath parent name = .ok child) : w.state.HasChild child := by
  obtain ⟨p, hp, hjoin⟩ := childPath_ok.mp h
  exact ⟨parent, p, name, hp, hjoin⟩

lemma outcome_lookup (parent : NodeId) (name : Str) :
    Outcome R w (.lookup parent name) (w.lookup R parent name).2 := by
  unfold lookup
  split
  · exact outcome_same R w _
  · next child hchild =>
      split
      · exact outcome_same R w _
      · next hneg =>
          split
          · exact .known (.intern (hasChild_of_childPath hchild) (.refl _))
          · next hstale =>
              split
              · exact outcome_same R w _
              · next honline =>
                  have honline : w.offline = false := by simpa using honline
                  unfold lookupRemote
                  split
                  · next attributes conn hstat =>
                      exact .lookupFound honline hchild (by simpa using hneg) hstale hstat
                  · next conn hstat => exact .lookupMissing honline hchild hstat
                  · next e conn _ hstat =>
                      have hfail : Failed R w (.lookup parent name) conn := .stat hstat
                      split
                      · split
                        · exact .failed hfail
                            (.intern (hasChild_of_childPath hchild) (.refl _))
                        · exact outcome_failed R w hfail
                      · exact outcome_failed R w hfail

lemma outcome_getattr (node : NodeId) :
    Outcome R w (.getattr node) (w.getattr R node).2 := by
  unfold getattr
  split
  · exact outcome_same R w _
  · next path hpath =>
      have hpath := State.pathOf_ok.mp hpath
      split
      · exact outcome_same R w _
      · next hstale =>
          split
          · exact outcome_same R w _
          · next honline =>
              have honline : w.offline = false := by simpa using honline
              unfold getattrRemote
              split
              · next attributes conn hstat => exact .getattrFound honline hpath hstale hstat
              · next conn hstat => exact .getattrMissing honline hpath hstat
              · next e conn _ hstat =>
                  have hfail : Failed R w (.getattr node) conn := .stat hstat
                  split
                  · split <;> exact outcome_failed R w hfail
                  · exact outcome_failed R w hfail

lemma outcome_readdirRemote {node : NodeId} {path : RemotePath} (honline : w.offline = false)
    (hpath : w.state.path node = some path)
    (hcache : (if w.metadataFresh path then w.readdirFromCache path else none) = none) :
    Outcome R w (.readdir node) (w.readdirRemote R path).2 := by
  unfold readdirRemote
  split
  · next e conn hread =>
      split
      · next entries w' hcached =>
          split at hcached
          · have hpath' : { w with conn := conn }.state.path node = some path := hpath
            obtain ⟨st, hst, rfl⟩ := readdirFromCache_world hpath' hcached
            exact .failed (.readDir hread) hst
          · cases hcached
      · exact outcome_failed R w (.readDir hread)
  · next entries conn hread =>
      simp only
      split
      · next result st hst => exact .listed honline hpath hcache hread hst
      · next e st hst => exact .listedPartly honline hpath hcache hread hst

lemma outcome_readdir (node : NodeId) :
    Outcome R w (.readdir node) (w.readdir R node).2 := by
  unfold readdir
  split
  · exact outcome_same R w _
  · next path hpath =>
      have hpath := State.pathOf_ok.mp hpath
      split
      · next entries w' hcached =>
          split at hcached
          · obtain ⟨st, hst, rfl⟩ := readdirFromCache_world hpath hcached
            exact .known hst
          · cases hcached
      · next hcache =>
          split
          · exact outcome_same R w _
          · next honline =>
              have honline : w.offline = false := by simpa using honline
              exact outcome_readdirRemote R w honline hpath hcache

lemma outcome_openFile (node : NodeId) (flags : OpenFlags) :
    Outcome R w (.openFile node flags) (w.openFile R node flags).2 := by
  unfold openFile
  split
  · exact outcome_same R w _
  · split
    · exact outcome_same R w _
    · next path hpath =>
        have hpath := State.pathOf_ok.mp hpath
        split
        · next htruncate =>
            split
            · next e conn hset =>
                obtain ⟨hans, rfl⟩ := Conn.setattr_eq hset
                exact outcome_failed R w (.asked (m := .setattr path { size := some 0 })
                  ⟨htruncate, path, hpath, rfl⟩ (Mutation.map_eq_error.mpr hans))
            · next attributes conn hset => exact .truncated htruncate hpath hset
        · exact .opened hpath

lemma outcome_readContent {handle : FileHandle} {file : OpenFile}
    (hfile : w.state.file handle = some file)
    (hmode : w.config.cacheMode = .onDemand ∨ w.config.cacheMode = .pinned) (offset : UInt64)
    (size : UInt32) :
    Outcome R w (.read handle offset size) (w.readContent R file offset size).2 := by
  have hattr := outcome_getattr R w file.node
  unfold readContent
  split
  · next e w' hget =>
      rw [hget] at hattr
      exact .readRejected hfile hmode hattr
  · next metadata w' hget =>
      rw [hget] at hattr
      exact .readContent hfile hmode hattr hget

lemma outcome_read (handle : FileHandle) (offset : UInt64) (size : UInt32) :
    Outcome R w (.read handle offset size) (w.read R handle offset size).2 := by
  unfold read
  split
  · exact outcome_same R w _
  · next file hfile =>
      split
      · next hmode => exact .readThrough hfile hmode
      · exact outcome_same R w _
      · next hmode => exact outcome_readContent R w hfile (.inl hmode) offset size
      · next hmode => exact outcome_readContent R w hfile (.inr hmode) offset size

lemma outcome_write (handle : FileHandle) (offset : UInt64) (data : Bytes) :
    Outcome R w (.write handle offset data) (w.write R handle offset data).2 := by
  unfold write
  split
  · exact outcome_same R w _
  · split
    · exact outcome_same R w _
    · next file hfile =>
        split
        · next e conn hwrite =>
            obtain ⟨hans, rfl⟩ := Conn.write_eq hwrite
            exact outcome_failed R w (.asked (m := .write file.path offset data)
              ⟨file, hfile, rfl⟩ (Mutation.map_eq_error.mpr hans))
        · next written conn hwrite => exact .wrote hfile hwrite

lemma outcome_create (parent : NodeId) (name : Str) (mode : UInt32) (flags : OpenFlags) :
    Outcome R w (.create parent name mode flags) (w.create R parent name mode flags).2 := by
  unfold create
  split
  · exact outcome_same R w _
  · next parentPath child hres =>
      split
      · next e conn hcreate =>
          obtain ⟨hans, rfl⟩ := Conn.create_eq hcreate
          exact outcome_failed R w (.asked (m := .create child mode)
            ⟨child, childPath_of_resolve hres, rfl⟩ (Mutation.map_eq_error.mpr hans))
      · next attributes conn hcreate => exact .created hres hcreate rfl

lemma outcome_mkdir (parent : NodeId) (name : Str) (mode : UInt32) :
    Outcome R w (.mkdir parent name mode) (w.mkdir R parent name mode).2 := by
  unfold mkdir
  split
  · exact outcome_same R w _
  · next parentPath child hres =>
      split
      · next e conn hmkdir =>
          obtain ⟨hans, rfl⟩ := Conn.mkdir_eq hmkdir
          exact outcome_failed R w (.asked (m := .mkdir child mode)
            ⟨child, childPath_of_resolve hres, rfl⟩ (Mutation.map_eq_error.mpr hans))
      · next attributes conn hmkdir => exact .madeDir hres hmkdir

lemma outcome_unlink (parent : NodeId) (name : Str) :
    Outcome R w (.unlink parent name) (w.unlink R parent name).2 := by
  unfold unlink
  split
  · exact outcome_same R w _
  · next parentPath child hres =>
      split
      · next e conn hunlink =>
          obtain ⟨hans, rfl⟩ := Conn.unlink_eq hunlink
          exact outcome_failed R w (.asked (m := .unlink child)
            ⟨child, childPath_of_resolve hres, rfl⟩ hans)
      · next conn hunlink => exact .unlinked hres hunlink

lemma outcome_rmdir (parent : NodeId) (name : Str) :
    Outcome R w (.rmdir parent name) (w.rmdir R parent name).2 := by
  unfold rmdir
  split
  · exact outcome_same R w _
  · next parentPath child hres =>
      split
      · next e conn hrmdir =>
          obtain ⟨hans, rfl⟩ := Conn.rmdir_eq hrmdir
          exact outcome_failed R w (.asked (m := .rmdir child)
            ⟨child, childPath_of_resolve hres, rfl⟩ hans)
      · next conn hrmdir => exact .removedDir hres hrmdir

lemma outcome_rename (parent : NodeId) (name : Str) (newParent : NodeId) (newName : Str) :
    Outcome R w (.rename parent name newParent newName)
      (w.rename R parent name newParent newName).2 := by
  unfold rename
  split
  · exact outcome_same R w _
  · next srcParent dstParent src dst hres =>
      split
      · next e conn hrename =>
          obtain ⟨hans, rfl⟩ := Conn.rename_eq hrename
          obtain ⟨hsrc, hdst⟩ := childPath_of_resolveRename hres
          exact outcome_failed R w (.asked (m := .rename src dst)
            ⟨src, dst, hsrc, hdst, rfl⟩ hans)
      · next conn hrename => exact .renamed hres hrename

lemma outcome_setattr (node : NodeId) (set : SetAttributes) :
    Outcome R w (.setattr node set) (w.setattr R node set).2 := by
  unfold setattr
  split
  · exact outcome_same R w _
  · next hwritable =>
      split
      · exact outcome_same R w _
      · next path hpath =>
          have hpath := State.pathOf_ok.mp hpath
          split
          · next e conn hset =>
              obtain ⟨hans, rfl⟩ := Conn.setattr_eq hset
              exact outcome_failed R w (.asked (m := .setattr path set)
                ⟨path, hpath, rfl⟩ (Mutation.map_eq_error.mpr hans))
          · next attributes conn hset => exact .setattrDone hwritable hpath hset

/-- **Every call has one of the outcomes.** -/
theorem outcome_exec (call : Call) : Outcome R w call (w.exec R call) := by
  cases call with
  | lookup parent name => exact outcome_lookup R w parent name
  | getattr node => exact outcome_getattr R w node
  | readdir node => exact outcome_readdir R w node
  | openFile node flags => exact outcome_openFile R w node flags
  | read handle offset size => exact outcome_read R w handle offset size
  | write handle offset data => exact outcome_write R w handle offset data
  | flush handle => exact outcome_same R w _
  | release handle => exact .released
  | create parent name mode flags => exact outcome_create R w parent name mode flags
  | mkdir parent name mode => exact outcome_mkdir R w parent name mode
  | unlink parent name => exact outcome_unlink R w parent name
  | rmdir parent name => exact outcome_rmdir R w parent name
  | rename parent name newParent newName =>
      exact outcome_rename R w parent name newParent newName
  | setattr node set => exact outcome_setattr R w node set

/-- A mutation does nothing on a read-only mount. -/
lemma exec_of_readOnly {w : World ρ} (hreadOnly : w.config.readOnly = true) {call : Call}
    (hmut : call.Mutates) : w.exec R call = w := by
  have hdenied : w.ensureWritable = .error .permissionDenied := if_pos hreadOnly
  cases call with
  | write _ _ _ => simp only [exec, write, hdenied]
  | create _ _ _ _ => simp only [exec, create, resolve, hdenied, bind, Except.bind]
  | mkdir _ _ _ => simp only [exec, mkdir, resolve, hdenied, bind, Except.bind]
  | unlink _ _ => simp only [exec, unlink, resolve, hdenied, bind, Except.bind]
  | rmdir _ _ => simp only [exec, rmdir, resolve, hdenied, bind, Except.bind]
  | rename _ _ _ _ => simp only [exec, rename, resolveRename, hdenied, bind, Except.bind]
  | setattr _ _ => simp only [exec, setattr, hdenied]
  | openFile _ flags =>
      have htruncate : flags.truncate = true := hmut
      simp only [exec, openFile, htruncate, Bool.or_true, if_true, hdenied]
  | lookup _ _ | getattr _ | readdir _ | read _ _ _ | flush _ | release _ => exact hmut.elim

/-! ## A small mount

The concrete runs of the later modules start from the same mount: chunks of four bytes, over an
in-memory remote with the file `/a`. -/

def pathA : RemotePath := ⟨['/', 'a'], by decide⟩

def pathB : RemotePath := ⟨['/', 'b'], by decide⟩

/-- A remote with the one file `/a`. -/
def sampleTree : Memory := Memory.empty.put ['/', 'a'] (.file [1, 2, 3] none) (by decide)

/-- A writable on-demand mount of `/` on an empty cache directory. -/
def mount (tree : Memory) (ttl : ℕ) : World Memory :=
  World.new ⟨.root, false, .onDemand, ttl, 4⟩ Disk.empty ⟨tree, 0, []⟩

end World

end CacheShfs
