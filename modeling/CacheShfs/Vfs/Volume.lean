import CacheShfs.Vfs.Sole

/-!
# What a mount is for

A `Volume` is what the calls of a mount are about: a tree of files, the paths that nodes stand for,
the files that are open, and the changes that the server has refused.  It knows of no cache.

A call of a mount that is the only client and renames nothing fails only for a reason that the
volume shows (`Sole.fails`): what is asked about is not there, the mount is read-only, or the server
has just refused the very change that was asked for.
-/

namespace CacheShfs

open Slice

/-- A tree of files, with the paths of the nodes and the files that are open. -/
structure Volume where
  tree : Tree
  inode : NodeId → Option RemotePath
  file : FileHandle → Option RemotePath
  readOnly : Bool
  /-- The changes that the server has refused so far, newest first. -/
  refused : List Mutation

namespace Volume

variable (v v' : Volume)

/-- The path of a name in a directory. -/
def Names (parent : NodeId) (name : Str) (path : RemotePath) : Prop :=
  ∃ dir, v.inode parent = some dir ∧ dir.join name = .ok path

/-- The tree and the open files are as they were. -/
def Still : Prop := v'.tree = v.tree ∧ v'.file = v.file

/-- A change is denied: the mount is read-only, or the server has refused the change just now. -/
def Denies (m : Mutation) : Prop := v.readOnly = true ∨ v'.refused = m :: v.refused

/-- **Why a call fails.** -/
def Fails : Call → Prop
  | .lookup parent name => ∀ path, v.Names parent name path → v.tree path.asStr = none
  | .getattr node => ∀ path, v.inode node = some path → v.tree path.asStr = none
  | .readdir node => ∀ dir, v.inode node = some dir → v.tree dir.asStr ≠ some .dir
  | .openFile node flags => ∀ path, v.inode node = some path →
      ((flags.write || flags.append || flags.truncate) = true ∧ v.readOnly = true) ∨
      (flags.truncate = true ∧ v.Denies v' (.setattr path { size := some 0 }))
  | .read handle _ _ => ∀ path, v.file handle = some path →
      ∀ f m, v.tree path.asStr ≠ some (.file f m)
  | .write handle offset data => ∀ path, v.file handle = some path →
      v.Denies v' (.write path offset data)
  | .flush _ => False
  | .release _ => False
  | .create parent name mode _ => ∀ path, v.Names parent name path → v.Denies v' (.create path mode)
  | .mkdir parent name mode => ∀ path, v.Names parent name path → v.Denies v' (.mkdir path mode)
  | .unlink parent name => ∀ path, v.Names parent name path → v.Denies v' (.unlink path)
  | .rmdir parent name => ∀ path, v.Names parent name path → v.Denies v' (.rmdir path)
  | .rename parent name newParent newName => ∀ src dst, v.Names parent name src →
      v.Names newParent newName dst → v.Denies v' (.rename src dst)
  | .setattr node attributes => ∀ path, v.inode node = some path →
      v.Denies v' (.setattr path attributes)

/-- The call asks what is at a path. -/
def Looks : Call → Prop
  | .lookup parent name => ∃ path, v.Names parent name path
  | .getattr node => ∃ path, v.inode node = some path
  | _ => False

end Volume

namespace World

variable {ρ : Type} {R : RemoteFilesystem ρ} {view : ρ → Tree} {w w' : World ρ}

/-- The volume of a mount. -/
def volume (view : ρ → Tree) (w : World ρ) : Volume where
  tree := view w.conn.remote
  inode := w.state.path
  file fh := (w.state.file fh).map OpenFile.path
  readOnly := w.config.readOnly
  refused := w.conn.refused

lemma names_iff {parent : NodeId} {name : Str} {path : RemotePath} :
    (w.volume view).Names parent name path ↔ w.childPath parent name = .ok path :=
  childPath_ok.symm

/-! ## Calls that change the tree -/

/-- A call asks for one change. -/
lemma asks_unique {call : Call} {m m' : Mutation} (h : w.Asks call m) (h' : w.Asks call m') :
    m' = m := by
  cases call with
  | write handle offset data =>
      obtain ⟨file, hfile, rfl⟩ := h
      obtain ⟨file', hfile', rfl⟩ := h'
      rw [Option.some.inj (hfile'.symm.trans hfile)]
  | create parent name mode flags =>
      obtain ⟨path, hpath, rfl⟩ := h
      obtain ⟨path', hpath', rfl⟩ := h'
      rw [Except.ok.inj (hpath'.symm.trans hpath)]
  | mkdir parent name mode =>
      obtain ⟨path, hpath, rfl⟩ := h
      obtain ⟨path', hpath', rfl⟩ := h'
      rw [Except.ok.inj (hpath'.symm.trans hpath)]
  | unlink parent name =>
      obtain ⟨path, hpath, rfl⟩ := h
      obtain ⟨path', hpath', rfl⟩ := h'
      rw [Except.ok.inj (hpath'.symm.trans hpath)]
  | rmdir parent name =>
      obtain ⟨path, hpath, rfl⟩ := h
      obtain ⟨path', hpath', rfl⟩ := h'
      rw [Except.ok.inj (hpath'.symm.trans hpath)]
  | rename parent name newParent newName =>
      obtain ⟨src, dst, hsrc, hdst, rfl⟩ := h
      obtain ⟨src', dst', hsrc', hdst', rfl⟩ := h'
      rw [Except.ok.inj (hsrc'.symm.trans hsrc), Except.ok.inj (hdst'.symm.trans hdst)]
  | setattr node attributes =>
      obtain ⟨path, hpath, rfl⟩ := h
      obtain ⟨path', hpath', rfl⟩ := h'
      rw [Option.some.inj (hpath'.symm.trans hpath)]
  | openFile node flags =>
      obtain ⟨-, path, hpath, rfl⟩ := h
      obtain ⟨-, path', hpath', rfl⟩ := h'
      rw [Option.some.inj (hpath'.symm.trans hpath)]
  | lookup _ _ | getattr _ | readdir _ | read _ _ _ | flush _ | release _ => exact h.elim

/-- A change that was asked for in vain has been denied. -/
lemma denies_of_failure {call : Call} {e : Error} (hfail : w.failure R call = some e)
    {m : Mutation} (hasks : w.Asks call m) :
    (w.volume view).Denies ((w.exec R call).volume view) m := by
  cases asked_of_mutates (R := R) (w := w) (mutates_of_asks hasks) with
  | unasked hwhy _ _ => exact hwhy.imp_right fun hno => absurd hasks (hno m)
  | answered m' hasks' _ _ hrefused =>
      obtain rfl := asks_unique hasks hasks'
      exact .inr (hrefused (by rw [hfail]; exact Option.some_ne_none _))

/-! ## Calls that look -/

namespace Sole

/-- What is there is found. -/
lemma lookup_succeeds (hR : Contract R view) (h : Sole view w) {parent : NodeId} {name : Str}
    {path : RemotePath} (hchild : w.childPath parent name = .ok path) {node : RemoteNode}
    (hnode : view w.conn.remote path.asStr = some node) :
    ∃ metadata, (w.lookup R parent name).1 = .ok metadata := by
  have hA := hR.answers.toStatsTree
  rcases lookup_answer (R := R) h.coherent.online hchild with
    ⟨-, heq⟩ | ⟨attributes, -, -, heq⟩ | ⟨-, -, heq⟩
  · have hnone := h.lookup_missing hR hchild (by rw [heq])
    rw [hnode] at hnone
    cases hnone
  · rw [heq]
    exact ⟨_, rfl⟩
  · obtain ⟨attributes, hstat, -⟩ := hR.answers.stat_some path w.conn.remote node hnode
    have hquote := lookupRemote_quotes w parent name path (stat_reachable hA path _)
    rw [heq]
    cases hanswer : (w.lookupRemote R parent name path).1 with
    | ok metadata => exact ⟨metadata, rfl⟩
    | error e =>
        rw [hanswer, hstat] at hquote
        cases hquote

/-- A lookup of a path component fails with `NotFound` only. -/
lemma lookup_error (hR : Contract R view) (h : Sole view w) {parent : NodeId} {name : Str}
    {path : RemotePath} (hchild : w.childPath parent name = .ok path) {e : Error}
    (hfail : (w.lookup R parent name).1 = .error e) : e = .notFound := by
  have hnone : view w.conn.remote path.asStr = none := by
    by_contra hne
    obtain ⟨node, hnode⟩ := Option.ne_none_iff_exists'.mp hne
    obtain ⟨metadata, hok⟩ := h.lookup_succeeds hR hchild hnode
    cases hok.symm.trans hfail
  have htransparent := h.coherent.lookup_transparent hR.answers.toStatsTree parent name path hchild
  have hmissing := htransparent.2.mpr (hR.answers.stat_none path _ hnone)
  exact Except.error.inj (hfail.symm.trans hmissing)

lemma getattr_succeeds (hR : Contract R view) (h : Sole view w) {node : NodeId} {path : RemotePath}
    (hpath : w.state.path node = some path) {n : RemoteNode}
    (hnode : view w.conn.remote path.asStr = some n) :
    ∃ metadata, (w.getattr R node).1 = .ok metadata := by
  rcases getattr_answer (R := R) h.coherent.online hpath with ⟨attributes, -, heq⟩ | ⟨-, heq⟩
  · rw [heq]
    exact ⟨_, rfl⟩
  · obtain ⟨attributes, hstat, -⟩ := hR.answers.stat_some path w.conn.remote n hnode
    have hquote := getattrRemote_quotes w node path
      (stat_reachable hR.answers.toStatsTree path _)
    rw [heq]
    cases hanswer : (w.getattrRemote R node path).1 with
    | ok metadata => exact ⟨metadata, rfl⟩
    | error e =>
        rw [hanswer, hstat] at hquote
        cases hquote

/-- A `getattr` of a node that has a path fails with `NotFound` only. -/
lemma getattr_error (hR : Contract R view) (h : Sole view w) {node : NodeId} {path : RemotePath}
    (hpath : w.state.path node = some path) {e : Error}
    (hfail : (w.getattr R node).1 = .error e) : e = .notFound := by
  have hnone : view w.conn.remote path.asStr = none := by
    by_contra hne
    obtain ⟨n, hnode⟩ := Option.ne_none_iff_exists'.mp hne
    obtain ⟨metadata, hok⟩ := h.getattr_succeeds hR hpath hnode
    cases hok.symm.trans hfail
  have hA := hR.answers.toStatsTree
  rcases getattr_answer (R := R) h.coherent.online hpath with ⟨attributes, -, heq⟩ | ⟨-, heq⟩
  · rw [heq] at hfail
    cases hfail
  · have hquote := getattrRemote_quotes w node path (stat_reachable hA path _)
    rw [← heq, hfail, hA.stat_none path _ hnone] at hquote
    exact Except.error.inj hquote

/-- A directory is listed. -/
lemma readdir_succeeds (hR : Contract R view) (h : Sole view w) {node : NodeId} {path : RemotePath}
    (hpath : w.state.path node = some path) (hdir : view w.conn.remote path.asStr = some .dir) :
    ∃ entries, (w.readdir R node).1 = .ok entries := by
  simp only [readdir, State.pathOf_ok.mpr hpath, h.coherent.online, Bool.false_eq_true, if_false]
  split
  · exact ⟨_, rfl⟩
  · obtain ⟨entries, hentries⟩ := hR.listed path w.conn.remote hdir
    have hread : w.conn.readDir R path = (.ok entries, (w.conn.readDir R path).2) :=
      Prod.ext hentries rfl
    -- no listed name ends the loop over the children
    have hvalid : ∀ c ∈ realChildren entries, ValidComponent c.1 := by
      intro c hc
      obtain ⟨e, he, rfl⟩ := List.mem_map.mp hc
      obtain ⟨hmem, hdots⟩ := List.mem_filter.mp he
      have hdots := of_decide_eq_true hdots
      exact hR.lists.names_valid path w.conn.remote entries hentries e hmem hdots.1 hdots.2
    obtain ⟨result, st, hst⟩ :=
      stampChildren_valid path (w.conn.readDir R path).2.now hvalid w.state
    rw [readdirRemote, hread]
    simp only [hst]
    exact ⟨result, rfl⟩

/-- A file is read. -/
lemma read_succeeds (hR : Contract R view) (h : Sole view w) {handle : FileHandle}
    {file : OpenFile} (hfile : w.state.file handle = some file) {f : Bytes} {m : Option Int}
    (hf : view w.conn.remote file.path.asStr = some (.file f m)) (offset : UInt64) (size : UInt32) :
    ∃ data, (w.read R handle offset size).1 = .ok data := by
  have hA := hR.answers.toStatsTree
  have hpath := h.handles handle file hfile
  obtain ⟨metadata, hok⟩ := h.getattr_succeeds hR hpath hf
  obtain ⟨w', hget⟩ : ∃ w', w.getattr R file.node = (.ok metadata, w') := ⟨_, Prod.ext hok rfl⟩
  obtain ⟨node, hnode, hagree⟩ := h.coherent.getattr_agrees hA hpath hget
  have hlooked : Sole view w' := by
    have hexec : Sole view (w.exec R (.getattr file.node)) := h.exec hR id
    simp only [World.exec, hget] at hexec
    exact hexec
  have hsame : view w'.conn.remote = view w.conn.remote := by
    have hview : view (w.exec R (.getattr file.node)).conn.remote = view w.conn.remote :=
      view_of_not_mutates hR id
    simp only [World.exec, hget] at hview
    exact hview
  obtain ⟨s', c', heq, -⟩ := hlooked.coherent.read_exact hA (hsame ▸ hf)
    (hR.mutates.file_size _ _ _ _ hf)
    (hagree.2 f m (Option.some.inj (hnode.symm.trans hf))) offset size
  simp only [World.read, hfile, h.coherent.mode, readContent, hget, heq]
  exact ⟨_, rfl⟩

/-- An open that does not truncate asks for nothing. -/
lemma openFile_fails {node : NodeId} {flags : OpenFlags} (hkeep : flags.truncate = false)
    {path : RemotePath} (hpath : w.state.path node = some path) {e : Error}
    (hfail : (w.openFile R node flags).1 = .error e) :
    (flags.write || flags.append || flags.truncate) = true ∧ w.config.readOnly = true := by
  simp only [openFile, State.pathOf_ok.mpr hpath, hkeep] at hfail
  split at hfail
  · next hwritable =>
      split at hwritable
      · next hflags => exact ⟨by rw [hkeep]; exact hflags, readOnly_of_error hwritable⟩
      · cases hwritable
  · cases hfail

lemma errorOf_eq_some {α : Type} {answer : Except Error α} {e : Error}
    (h : errorOf answer = some e) : answer = .error e := by
  cases answer with
  | ok _ => cases h
  | error e' => rw [Option.some.inj h]

/-- What is not there is not found. -/
lemma looks_error (hR : Contract R view) (h : Sole view w) {call : Call}
    (hlooks : (w.volume view).Looks call) {e : Error} (hfail : w.failure R call = some e) :
    e = .notFound := by
  cases call with
  | lookup parent name =>
      obtain ⟨path, hnames⟩ := hlooks
      exact h.lookup_error hR (names_iff.mp hnames) (errorOf_eq_some hfail)
  | getattr node =>
      obtain ⟨path, hpath⟩ := hlooks
      exact h.getattr_error hR hpath (errorOf_eq_some hfail)
  | _ => exact hlooks.elim

/-- **A call fails only for a reason that the volume shows.** -/
lemma fails (hR : Contract R view) (h : Sole view w) (call : Call) {e : Error}
    (hfail : w.failure R call = some e) :
    (w.volume view).Fails ((w.exec R call).volume view) call := by
  cases call with
  | lookup parent name =>
      intro path hnames
      by_contra hne
      obtain ⟨node, hnode⟩ := Option.ne_none_iff_exists'.mp hne
      obtain ⟨metadata, hok⟩ := h.lookup_succeeds hR (names_iff.mp hnames) hnode
      cases hok.symm.trans (errorOf_eq_some hfail)
  | getattr node =>
      intro path hpath
      by_contra hne
      obtain ⟨n, hnode⟩ := Option.ne_none_iff_exists'.mp hne
      obtain ⟨metadata, hok⟩ := h.getattr_succeeds hR hpath hnode
      cases hok.symm.trans (errorOf_eq_some hfail)
  | readdir node =>
      intro dir hpath hdir
      obtain ⟨entries, hok⟩ := h.readdir_succeeds hR hpath hdir
      cases hok.symm.trans (errorOf_eq_some hfail)
  | openFile node flags =>
      intro path hpath
      cases htruncate : flags.truncate with
      | false =>
          have hwhy := openFile_fails htruncate hpath (errorOf_eq_some hfail)
          exact .inl (htruncate ▸ hwhy)
      | true => exact .inr ⟨rfl, denies_of_failure hfail ⟨htruncate, path, hpath, rfl⟩⟩
  | read handle offset size =>
      intro path hopen f m hf
      obtain ⟨file, hfile, rfl⟩ := Option.map_eq_some_iff.mp hopen
      obtain ⟨data, hok⟩ := h.read_succeeds hR hfile hf offset size
      cases hok.symm.trans (errorOf_eq_some hfail)
  | write handle offset data =>
      intro path hopen
      obtain ⟨file, hfile, rfl⟩ := Option.map_eq_some_iff.mp hopen
      exact denies_of_failure hfail ⟨file, hfile, rfl⟩
  | flush handle => cases hfail
  | release handle => cases hfail
  | create parent name mode flags =>
      exact fun path hnames => denies_of_failure hfail ⟨path, names_iff.mp hnames, rfl⟩
  | mkdir parent name mode =>
      exact fun path hnames => denies_of_failure hfail ⟨path, names_iff.mp hnames, rfl⟩
  | unlink parent name =>
      exact fun path hnames => denies_of_failure hfail ⟨path, names_iff.mp hnames, rfl⟩
  | rmdir parent name =>
      exact fun path hnames => denies_of_failure hfail ⟨path, names_iff.mp hnames, rfl⟩
  | rename parent name newParent newName =>
      exact fun src dst hsrc hdst =>
        denies_of_failure hfail ⟨src, dst, names_iff.mp hsrc, names_iff.mp hdst, rfl⟩
  | setattr node attributes =>
      exact fun path hpath => denies_of_failure hfail ⟨path, hpath, rfl⟩

end Sole

end World

end CacheShfs
