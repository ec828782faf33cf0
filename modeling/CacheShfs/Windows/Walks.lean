import CacheShfs.Vfs.Volume
import CacheShfs.Windows.Session

/-!
# Where names lead

The walks of `path.rs` over the tree of the server, when the mount is the only client.  A name
stands for the child of this very name or, where there is none, for one whose name differs from it
in the case of letters.  `Reaches` says where the names of a path may lead, and `Stuck` that they
may come to an end before.  A walk that succeeds has come to where its names lead, and one that
fails got stuck (`reached_resolve`, `reached_resolveParent`); neither changes anything.
-/

namespace CacheShfs

open Program

namespace Windows

/-! ## Names in a tree -/

/-- The child of a directory that a name stands for: the child of this very name or, where there is
none, one whose name differs from it in the case of letters. -/
def ChildOf (t : CacheShfs.Tree) (dir : RemotePath) (name : Str) (path : RemotePath) : Prop :=
  t path.asStr ≠ none ∧ (dir.join name = .ok path ∨
    (∀ p, dir.join name = .ok p → t p.asStr = none) ∧
      ∃ real, eqIgnoreAsciiCase real name = true ∧ dir.join real = .ok path)

/-- The path that names lead to from a directory. -/
inductive Reaches (t : CacheShfs.Tree) : RemotePath → List Str → RemotePath → Prop
  | here {dir} : Reaches t dir [] dir
  | child {dir name path names target} (hchild : ChildOf t dir name path)
      (hrest : Reaches t path names target) : Reaches t dir (name :: names) target

/-- No child is found under a name: there is none of this very name and, in a directory, no other
that the name stands for. -/
structure NoChild (t : CacheShfs.Tree) (dir : RemotePath) (name : Str) : Prop where
  missing : ∀ path, dir.join name = .ok path → t path.asStr = none
  unlisted : t dir.asStr = some .dir → ∀ path, ¬ ChildOf t dir name path

/-- Names that lead nowhere, or may lead to a directory where the next one is not found. -/
inductive Stuck (t : CacheShfs.Tree) : RemotePath → List Str → Prop
  | here {dir name names} (h : NoChild t dir name) : Stuck t dir (name :: names)
  | later {dir name path names} (hchild : ChildOf t dir name path) (hrest : Stuck t path names) :
      Stuck t dir (name :: names)

/-- The name of a file leads nowhere. -/
def Unfound (t : CacheShfs.Tree) (root : RemotePath) (fileName : Str) : Prop :=
  t root.asStr = none ∨ Stuck t root (components fileName)

/-- The directory and the last component of the name of a new file. -/
def PlacedIn (t : CacheShfs.Tree) (root : RemotePath) (fileName : Str) (dir : RemotePath)
    (leaf : Str) : Prop :=
  (components fileName).getLast? = some leaf ∧ Reaches t root (components fileName).dropLast dir

/-- There is no directory for the name of a new file. -/
def Unplaced (t : CacheShfs.Tree) (root : RemotePath) (fileName : Str) : Prop :=
  (components fileName).getLast? = none ∨ Stuck t root (components fileName).dropLast

/-- The path that the name of a new file stands for: the name as it is written, in the directory
that its parents lead to. -/
def NamedAt (t : CacheShfs.Tree) (root : RemotePath) (fileName : Str) (path : RemotePath) : Prop :=
  ∃ dir leaf, PlacedIn t root fileName dir leaf ∧ dir.join leaf = .ok path

end Windows

/-! ## Calls that look -/

namespace World

variable {ρ : Type} {R : RemoteFilesystem ρ} {view : ρ → Tree} {w w' : World ρ}

/-- The tree and the open files are as they were, nodes keep their paths, and nothing has been
refused. -/
structure Looked (view : ρ → Tree) (w w' : World ρ) : Prop where
  sole : Sole view w'
  tree : view w'.conn.remote = view w.conn.remote
  path : ∀ n p, w.state.path n = some p → w'.state.path n = some p
  file : ∀ fh, w'.state.file fh = w.state.file fh
  readOnly : w'.config.readOnly = w.config.readOnly
  refused : w'.conn.refused = w.conn.refused

lemma Looked.refl (h : Sole view w) : Looked view w w :=
  ⟨h, rfl, fun _ _ hp => hp, fun _ => rfl, rfl, rfl⟩

lemma Looked.trans {w'' : World ρ} (h : Looked view w w') (h' : Looked view w' w'') :
    Looked view w w'' where
  sole := h'.sole
  tree := h'.tree.trans h.tree
  path n p hp := h'.path n p (h.path n p hp)
  file fh := (h'.file fh).trans (h.file fh)
  readOnly := h'.readOnly.trans h.readOnly
  refused := h'.refused.trans h.refused

/-- What is denied after looking has been denied altogether. -/
lemma Looked.denies (h : Looked view w w') {v : Volume} {m : Mutation}
    (hdenies : (w'.volume view).Denies v m) : (w.volume view).Denies v m := by
  rcases hdenies with hreadOnly | hrefused
  · exact .inl (h.readOnly.symm.trans hreadOnly)
  · exact .inr (hrefused.trans (congrArg (m :: ·) h.refused))

lemma quiet_of_looks {call : Call} (hcall : call.Looks) : ¬ call.Mutates ∧ ¬ call.Renames := by
  cases call with
  | lookup _ _ => exact ⟨id, id⟩
  | getattr _ => exact ⟨id, id⟩
  | readdir _ => exact ⟨id, id⟩
  | _ => exact hcall.elim

lemma looked_exec (hR : Contract R view) (h : Sole view w) {call : Call} (hcall : call.Looks) :
    Looked view w (w.exec R call) where
  sole := h.exec hR (quiet_of_looks hcall).2
  tree := view_of_not_mutates hR (quiet_of_looks hcall).1
  path _ _ hp := path_kept h.coherent.wf (quiet_of_looks hcall).2 hp
  file := (sameFiles_exec h.registryOk (Windows.CacheFs.looks_keepsFiles call hcall)).files
  readOnly := congrArg Config.readOnly (grows_outcome (outcome_exec R w call)).2
  refused := (unchanged_of_not_mutates hR (quiet_of_looks hcall).1).2

/-- A program that only looks. -/
lemma looked_run (hR : Contract R view) (h : Sole view w) {α : Type} {p : CallProgram α}
    (hp : p.Asks Call.Looks) : Looked view w (p.run (vfs R) w).2 := by
  refine hp.keeps (I := Looked view w) (fun call v hcall hv => ?_) (.refl h)
  rw [vfs_snd]
  exact hv.trans (looked_exec hR hv.sole hcall)

/-- What a program keeps that renames nothing. -/
lemma sole_run (hR : Contract R view) (h : Sole view w) {α : Type} {p : CallProgram α}
    (hp : p.Asks fun call => ¬ call.Renames) : Sole view (p.run (vfs R) w).2 ∧
      ∀ n path, w.state.path n = some path → (p.run (vfs R) w).2.state.path n = some path := by
  refine hp.keeps (I := fun v => Sole view v ∧
    ∀ n path, w.state.path n = some path → v.state.path n = some path)
    (fun call v hcall hv => ?_) ⟨h, fun _ _ hpath => hpath⟩
  rw [vfs_snd]
  exact ⟨hv.1.exec hR hcall, fun n path hpath =>
    path_kept hv.1.coherent.wf hcall (hv.2 n path hpath)⟩

end World

namespace Windows

namespace CacheFs

variable {ρ : Type} {R : RemoteFilesystem ρ} {view : ρ → CacheShfs.Tree} {w : World ρ}
  {context : FileContext} {path root : RemotePath}

/-! ## Walks -/

/-- The metadata that a walk has come to are of the node at a path. -/
structure Stands (view : ρ → CacheShfs.Tree) (w : World ρ) (metadata : FileMetadata)
    (path : RemotePath) : Prop where
  inode : w.state.path metadata.node = some path
  node : ∃ node, view w.conn.remote path.asStr = some node ∧ metadata.attributes.kind = node.kind

section Component

variable {parent : NodeId} {dir : RemotePath} {name : Str}

lemma stands_of_lookup (hR : Contract R view) (h : World.Sole view w)
    (hdir : w.state.path parent = some dir) {metadata : FileMetadata}
    (hok : (w.lookup R parent name).1 = .ok metadata) :
    ∃ path, ChildOf (view w.conn.remote) dir name path ∧
      Stands view (w.exec R (.lookup parent name)) metadata path := by
  have hlooked : w.Looked view (w.exec R (.lookup parent name)) := World.looked_exec hR h trivial
  obtain ⟨path, hchild⟩ := World.childPath_of_lookup hok
  obtain ⟨⟨node, hnode, hagrees⟩, hpath⟩ := h.lookup_told hR hchild hok
  obtain ⟨dir', hdir', hjoin⟩ := World.childPath_ok.mp hchild
  obtain rfl : dir' = dir := Option.some.inj (hdir'.symm.trans hdir)
  refine ⟨path, ⟨?_, .inl hjoin⟩, hpath, node, ?_, hagrees.1⟩
  · rw [hnode]
    exact Option.some_ne_none _
  · rw [← hnode]
    exact congrFun hlooked.tree _

/-- An entry of the listing whose name differs in the case of letters from one that is missing. -/
lemma stands_of_listed (hR : Contract R view) (h : World.Sole view w)
    (hdir : w.state.path parent = some dir)
    (hmissing : ∀ p, dir.join name = .ok p → view w.conn.remote p.asStr = none)
    {entries : List DirectoryEntry} (hok : (w.readdir R parent).1 = .ok entries)
    {entry : DirectoryEntry} (hentry : entry ∈ entries)
    (hname : eqIgnoreAsciiCase entry.name name = true) :
    ∃ path, ChildOf (view w.conn.remote) dir name path ∧
      Stands view (w.exec R (.readdir parent)) entry.metadata path := by
  have hlooked : w.Looked view (w.exec R (.readdir parent)) := World.looked_exec hR h trivial
  obtain ⟨dir', hdir', -, hentries⟩ := h.readdir_told hR hok
  obtain rfl : dir' = dir := Option.some.inj (hdir'.symm.trans hdir)
  obtain ⟨node, hnode, hkind, path, hjoin, hpath⟩ := hentries entry hentry
  rw [← (RemotePath.join_ok_iff.mp hjoin).2] at hnode
  refine ⟨path, ⟨?_, .inr ⟨hmissing, entry.name, hname, hjoin⟩⟩, hpath, node, ?_, hkind⟩
  · rw [hnode]
    exact Option.some_ne_none _
  · rw [← hnode]
    exact congrFun hlooked.tree _

/-- A name that is not found in the listing stands for no child. -/
lemma noChild_of_listed (hR : Contract R view) (h : World.Sole view w)
    (hdir : w.state.path parent = some dir)
    (hmissing : ∀ p, dir.join name = .ok p → view w.conn.remote p.asStr = none)
    {entries : List DirectoryEntry} (hok : (w.readdir R parent).1 = .ok entries)
    (hfind : entries.find? (fun entry => eqIgnoreAsciiCase entry.name name) = none) :
    NoChild (view w.conn.remote) dir name := by
  refine ⟨hmissing, fun _ path hchild => ?_⟩
  obtain ⟨hne, hjoin | ⟨-, real, hreal, hjoin⟩⟩ := hchild
  · exact hne (hmissing path hjoin)
  · obtain ⟨dir', hdir', hexact, -⟩ := h.readdir_told hR hok
    obtain rfl : dir' = dir := Option.some.inj (hdir'.symm.trans hdir)
    obtain ⟨hvalid, hkey⟩ := RemotePath.join_ok_iff.mp hjoin
    rw [hkey] at hne
    obtain ⟨entry, hentry, rfl⟩ := List.mem_map.mp ((hexact.mem real).mpr ⟨hvalid, hne⟩)
    exact List.find?_eq_none.mp hfind entry hentry hreal

/-- Nothing is found under a name that is no path component. -/
lemma noChild_of_invalid {t : CacheShfs.Tree} (hinvalid : ∀ p, dir.join name ≠ .ok p) :
    NoChild t dir name := by
  refine ⟨fun p hjoin => absurd hjoin (hinvalid p), fun _ path hchild => ?_⟩
  obtain ⟨-, hjoin | ⟨-, real, hreal, hjoin⟩⟩ := hchild
  · exact hinvalid path hjoin
  · have hvalid := validComponent_of_eqIgnoreAsciiCase hreal (RemotePath.join_ok_iff.mp hjoin).1
    exact hinvalid _ (dir.join_eq_ok hvalid)

/-- `lookup_component` comes to a child that the name stands for, or there is none. -/
lemma reached_lookupComponent (hR : Contract R view) (h : World.Sole view w)
    (hdir : w.state.path parent = some dir) (name : Str) :
    Ends (World.vfs R) (lookupComponent parent name) w
      (fun r w' => w.Looked view w' ∧ ∃ path, ChildOf (view w.conn.remote) dir name path ∧
        Stands view w' r.1 path)
      fun _ w' => w.Looked view w' ∧ NoChild (view w.conn.remote) dir name := by
  have hreached : Ends (World.vfs R) (lookupComponent parent name) w
      (fun r w' => ∃ path, ChildOf (view w.conn.remote) dir name path ∧ Stands view w' r.1 path)
      fun _ _ => NoChild (view w.conn.remote) dir name := by
    have hlooked : w.Looked view (w.exec R (.lookup parent name)) :=
      World.looked_exec hR h trivial
    have hpath := hlooked.path _ _ hdir
    rw [lookupComponent, ends_bind, ends_attempt, Vfs.lookup, Calls.ends_ask]
    refine ⟨fun metadata hok => stands_of_lookup hR h hdir hok, fun e hlookup => ?_⟩
    have hmissing : ∀ p, dir.join name = .ok p → view w.conn.remote p.asStr = none :=
      fun p hjoin => h.fails hR (.lookup parent name) (congrArg errorOf hlookup) p
        ⟨dir, hdir, hjoin⟩
    split
    · next heq => cases heq
    · rw [ends_bind, Vfs.readdir, Calls.ends_ask]
      have hmissing' := hmissing
      rw [← hlooked.tree] at hmissing' ⊢
      refine ⟨fun entries hok => ?_, fun e hfail => ⟨hmissing', fun hisDir => ?_⟩⟩
      · split
        · next entry hfind =>
            have hname := List.find?_some hfind
            exact stands_of_listed hR hlooked.sole hpath hmissing' hok
              (List.mem_of_find?_eq_some hfind) hname
        · next hfind => exact noChild_of_listed hR hlooked.sole hpath hmissing' hok hfind
      · exact absurd hisDir
          (hlooked.sole.fails hR (.readdir parent) (congrArg errorOf hfail) dir hpath)
    · next hother heq =>
        obtain rfl := Except.error.inj heq
        refine noChild_of_invalid fun p hjoin => hother ?_
        rw [h.lookup_error hR (World.childPath_ok.mpr ⟨dir, hdir, hjoin⟩) hlookup]
  have hkept := hreached.keeps (asks_lookupComponent (fun _ h => h) parent name)
    (fun call v hcall hv => hv.trans (World.vfs_snd R call v ▸ World.looked_exec hR hv.sole hcall))
    (World.Looked.refl h)
  exact hkept.mono (fun _ _ h => h) fun _ _ h => h

end Component

/-- The loop of `resolve` comes to the path that the names lead to. -/
lemma reached_resolveFrom (hR : Contract R view) (names : List Str) (h : World.Sole view w)
    {dir : RemotePath} {metadata : FileMetadata} (hstands : Stands view w metadata dir)
    (canonical : Str) :
    Ends (World.vfs R) (resolveFrom names metadata.node metadata canonical) w
      (fun r w' => w.Looked view w' ∧ ∃ path, Reaches (view w.conn.remote) dir names path ∧
        Stands view w' r.1 path)
      fun _ w' => w.Looked view w' ∧ Stuck (view w.conn.remote) dir names := by
  induction names generalizing w dir metadata canonical with
  | nil => exact ⟨.refl h, dir, .here, hstands⟩
  | cons name rest ih =>
      rw [resolveFrom, ends_bind]
      refine (reached_lookupComponent hR h hstands.inode name).mono ?_
        fun _ _ hnone => ⟨hnone.1, .here hnone.2⟩
      rintro ⟨found, realName⟩ w₁ ⟨hlooked, path, hchild, hfound⟩
      have hrest := ih hlooked.sole hfound (canonical ++ '\\' :: realName)
      rw [hlooked.tree] at hrest
      refine hrest.mono ?_ fun _ _ hstuck => ⟨hlooked.trans hstuck.1, .later hchild hstuck.2⟩
      rintro r w₂ ⟨hlooked', target, hreaches, htarget⟩
      exact ⟨hlooked.trans hlooked', target, .child hchild hreaches, htarget⟩

lemma reached_resolve (hR : Contract R view) (h : World.Sole view w)
    (hroot : w.state.path .root = some root) (fileName : Str) :
    Ends (World.vfs R) (resolve fileName) w
      (fun r w' => w.Looked view w' ∧ ∃ path,
        Reaches (view w.conn.remote) root (components fileName) path ∧ Stands view w' r.1 path)
      fun _ w' => w.Looked view w' ∧ Unfound (view w.conn.remote) root fileName := by
  have hlooked : w.Looked view (w.exec R (.getattr .root)) := World.looked_exec hR h trivial
  rw [resolve, ends_bind, Vfs.getattr, Calls.ends_ask]
  refine ⟨fun metadata hok => ?_, fun _ hfail => ⟨hlooked, .inl ?_⟩⟩
  swap
  · exact h.fails hR (.getattr .root) (congrArg errorOf hfail) root hroot
  obtain ⟨root', hroot', node, hnode, hagrees⟩ := h.getattr_told hR hok
  obtain rfl : root' = root := Option.some.inj (hroot'.symm.trans hroot)
  have hroot : metadata.node = .root := World.getattr_node (Prod.ext hok rfl)
  have hstands : Stands view (w.exec R (.getattr .root)) metadata root' := by
    refine ⟨?_, node, ?_, hagrees.1⟩
    · rw [hroot]
      exact hlooked.path _ _ hroot'
    · rw [← hnode]
      exact congrFun hlooked.tree _
  have hwalk := reached_resolveFrom hR (components fileName) hlooked.sole hstands []
  rw [hroot, hlooked.tree] at hwalk
  rw [ends_bind]
  refine hwalk.mono ?_ fun _ _ hstuck => ⟨hlooked.trans hstuck.1, .inr hstuck.2⟩
  rintro ⟨found, canonical⟩ w' ⟨hlooked', path, hreaches, hfound⟩
  exact ⟨hlooked.trans hlooked', path, hreaches, hfound⟩

/-- The loop of `resolve_parent`. -/
lemma reached_walkParents (hR : Contract R view) (names : List Str) (h : World.Sole view w)
    {dir : RemotePath} {node : NodeId} (hdir : w.state.path node = some dir) :
    Ends (World.vfs R) (walkParents names node) w
      (fun n w' => w.Looked view w' ∧ ∃ path, Reaches (view w.conn.remote) dir names path ∧
        w'.state.path n = some path)
      fun _ w' => w.Looked view w' ∧ Stuck (view w.conn.remote) dir names := by
  induction names generalizing w dir node with
  | nil => exact ⟨.refl h, dir, .here, hdir⟩
  | cons name rest ih =>
      rw [walkParents, ends_bind]
      refine (reached_lookupComponent hR h hdir name).mono ?_
        fun _ _ hnone => ⟨hnone.1, .here hnone.2⟩
      rintro ⟨found, realName⟩ w₁ ⟨hlooked, path, hchild, hfound⟩
      have hrest := ih hlooked.sole hfound.inode
      rw [hlooked.tree] at hrest
      refine hrest.mono ?_ fun _ _ hstuck => ⟨hlooked.trans hstuck.1, .later hchild hstuck.2⟩
      rintro n w₂ ⟨hlooked', target, hreaches, htarget⟩
      exact ⟨hlooked.trans hlooked', target, .child hchild hreaches, htarget⟩

/-- `resolve_parent` comes to the directory of a new file. -/
lemma reached_resolveParent (hR : Contract R view) (h : World.Sole view w)
    (hroot : w.state.path .root = some root) (fileName : Str) :
    Ends (World.vfs R) (resolveParent fileName) w
      (fun r w' => w.Looked view w' ∧ ∃ dir,
        PlacedIn (view w.conn.remote) root fileName dir r.2 ∧ w'.state.path r.1 = some dir)
      fun _ w' => w.Looked view w' ∧ Unplaced (view w.conn.remote) root fileName := by
  unfold resolveParent
  split
  · next hnone => exact ⟨.refl h, .inl hnone⟩
  · next leaf hleaf =>
      rw [ends_bind]
      refine (reached_walkParents hR _ h hroot).mono ?_
        fun _ _ hstuck => ⟨hstuck.1, .inr hstuck.2⟩
      rintro node w' ⟨hlooked, dir, hreaches, hdir⟩
      exact ⟨hlooked, dir, ⟨hleaf, hreaches⟩, hdir⟩

end CacheFs

end Windows

end CacheShfs
