import CacheShfs.Linux.Session
import CacheShfs.Vfs.Volume

/-!
# The mount as a tree of files

From the kernel down to the server: requests of FUSE, the cache with its times and its chunks, and
the transport that makes SFTP requests of what is left.  `Volume.Serves` says what the answer to a
request and the volume after it may be, and knows of no cache.

A mount that has its server to itself, and is asked to rename nothing, serves every request as its
volume does (`mount_serves_tree`): names are found exactly where the server has them, reads give the
bytes that the server has, a request that succeeds makes exactly its change, and one fails only
where what it asks for is not there or its change is denied.
-/

namespace CacheShfs

open Machine Slice

/-! ## What the kernel may be answered -/

namespace Volume

variable (v v' : Volume)

/-- The path of a name in a directory. -/
def At (parent : NodeId) (name : OsStr) (path : RemotePath) : Prop :=
  ∃ text, name = .utf8 text ∧ v.Names parent text path

/-- Attributes that show the node at a path, under the inode number of the path. -/
structure Shows (attr : FileAttr) (path : RemotePath) : Prop where
  inode : v.inode attr.ino = some path
  node : ∃ node, v.tree path.asStr = some node ∧ attr.kind = fileType node.kind ∧
    ∀ f m, node = .file f m → attr.size.toNat = f.length

/-- An entry of a listing, under the name that the directory has for it. -/
structure Lists (dir : RemotePath) (entry : ReplyEntry) : Prop where
  inode : ∃ path, dir.join entry.name = .ok path ∧ v.inode entry.ino = some path
  node : ∃ node, v.tree (childKey dir.asStr entry.name) = some node ∧
    entry.kind = fileType node.kind

/-- **What a request may be answered with**, and what it does, at a time of the system's clock. -/
inductive Serves (systemNow : Int) : Request → FuseReply → Prop
  /-- A request fails only where its call does, and changes nothing.  What is looked for is missing
  then, and the kernel is told so. -/
  | refused {request call errno} (hcall : request.call systemNow = some call)
      (hwhy : v.Fails v' call) (hmissing : v.Looks call → errno = .noent) (hstill : v.Still v') :
      Serves systemNow request (.error errno)
  /-- A name that is no text is refused. -/
  | unnamed {request} (hcall : request.call systemNow = none)
      (hopendir : ∀ ino, request ≠ .opendir ino) (hstill : v.Still v') :
      Serves systemNow request (.error .inval)
  | lookup {parent name path attr} (hat : v.At parent name path) (hstill : v.Still v')
      (hshows : v'.Shows attr path) : Serves systemNow (.lookup parent name) (.entry attr)
  | getattr {ino path attr} (hino : v.inode ino = some path) (hstill : v.Still v')
      (hsame : attr.ino = ino) (hshows : v'.Shows attr path) :
      Serves systemNow (.getattr ino) (.attr attr)
  | setattr {ino mode size atime mtime path attributes attr} (hino : v.inode ino = some path)
      (hcall : (Request.setattr ino mode size atime mtime).call systemNow =
        some (.setattr ino attributes))
      (heffect : (Change.set path (setAttributes attributes)).Effect v.tree v'.tree)
      (hfile : v'.file = v.file) (hsame : attr.ino = ino) (hshows : v'.Shows attr path) :
      Serves systemNow (.setattr ino mode size atime mtime) (.attr attr)
  | mkdir {parent name mode umask path attr} (hat : v.At parent name path)
      (heffect : (Change.createDir path).Effect v.tree v'.tree) (hfile : v'.file = v.file)
      (hshows : v'.Shows attr path) : Serves systemNow (.mkdir parent name mode umask) (.entry attr)
  | create {parent name mode umask flags path attr fh} (hat : v.At parent name path)
      (heffect : (Change.create path).Effect v.tree v'.tree) (hnew : v.file fh = none)
      (hfile : v'.file = Function.update v.file fh (some path)) (hshows : v'.Shows attr path) :
      Serves systemNow (.create parent name mode umask flags) (.created attr fh)
  | unlink {parent name path} (hat : v.At parent name path)
      (heffect : (Change.removeFile path).Effect v.tree v'.tree) (hfile : v'.file = v.file) :
      Serves systemNow (.unlink parent name) .ok
  | rmdir {parent name path} (hat : v.At parent name path)
      (heffect : (Change.removeDir path).Effect v.tree v'.tree) (hfile : v'.file = v.file) :
      Serves systemNow (.rmdir parent name) .ok
  | opened {ino flags path fh} (hino : v.inode ino = some path)
      (heffect : if (openFlags flags).truncate
        then (Change.set path { size := some 0 }).Effect v.tree v'.tree else v'.tree = v.tree)
      (hnew : v.file fh = none) (hfile : v'.file = Function.update v.file fh (some path)) :
      Serves systemNow (.openFile ino flags) (.opened fh)
  | read {fh offset size path node data} (hopen : v.file fh = some path)
      (hnode : v.tree path.asStr = some node)
      (hdata : ∀ f m, node = .file f m →
        data = slice f offset.toNat (offset.toNat + size.toNat))
      (hstill : v.Still v') : Serves systemNow (.read fh offset size) (.data data)
  | write {fh offset data path} (hopen : v.file fh = some path)
      (heffect : (Change.write path offset.toNat data).Effect v.tree v'.tree)
      (hfile : v'.file = v.file) :
      Serves systemNow (.write fh offset data) (.written (UInt32.ofNat data.length))
  | flush {fh} (hstill : v.Still v') : Serves systemNow (.flush fh) .ok
  | release {fh} (htree : v'.tree = v.tree) (hfile : v'.file = Function.update v.file fh none) :
      Serves systemNow (.release fh) .ok
  | opendir {ino fh} (hstill : v.Still v') : Serves systemNow (.opendir ino) (.opened fh)
  /-- A page of the listing of a directory. -/
  | readdir {ino offset capacity dir buffer} {listing : List ReplyEntry}
      (hino : v.inode ino = some dir)
      (hstill : v.Still v') (hexact : ListsExactly v.tree dir.asStr (listing.map ReplyEntry.name))
      (hlists : ∀ entry ∈ listing, v'.Lists dir entry)
      (hpage : buffer.entries = (listing.drop offset).take capacity) :
      Serves systemNow (.readdir ino offset capacity) (.directory buffer)

end Volume

/-! ## One call -/

namespace World

variable {ρ : Type} {R : RemoteFilesystem ρ} {view : ρ → Tree} {w : World ρ}

/-- A call that gives out no handle and is no release leaves the open files. -/
lemma Sole.file_kept (h : Sole view w) (call : Call) (hrelease : ∀ fh, call ≠ .release fh)
    (hissued : Session.issued (w.returned R call) = none) :
    ((w.exec R call).volume view).file = (w.volume view).file := by
  cases table_exec (R := R) h.registryOk hrelease with
  | same _ _ hfile => exact funext fun fh => congrArg (Option.map OpenFile.path) (hfile fh)
  | issued hsome _ _ _ _ =>
      rw [hissued] at hsome
      cases hsome

/-- The open files after a handle has been given out. -/
lemma file_issued {w' : World ρ} {fh : FileHandle} {node : NodeId} {path : RemotePath}
    (hfile : ∀ g, w'.state.file g = if g = fh then some ⟨node, path⟩ else w.state.file g) :
    (w'.volume view).file = Function.update (w.volume view).file fh (some path) := by
  funext g
  by_cases hg : g = fh
  · subst hg
    rw [Function.update_self]
    show (w'.state.file g).map _ = _
    rw [hfile, if_pos rfl]
    rfl
  · rw [Function.update_of_ne hg]
    show (w'.state.file g).map _ = (w.state.file g).map _
    rw [hfile, if_neg hg]

lemma issued_of_failure {call : Call} {e : Error} (h : w.failure R call = some e) :
    Session.issued (w.returned R call) = none := by
  cases call with
  | openFile node flags =>
      simp only [failure] at h
      simp only [returned]
      cases hanswer : (w.openFile R node flags).1 with
      | ok fh =>
          rw [hanswer] at h
          cases h
      | error e => rfl
  | create parent name mode flags =>
      simp only [failure] at h
      simp only [returned]
      cases hanswer : (w.create R parent name mode flags).1 with
      | ok created =>
          rw [hanswer] at h
          cases h
      | error e => rfl
  | _ => rfl

/-- A call that fails leaves the tree and the open files. -/
lemma Sole.still_of_failure (hR : Contract R view) (h : Sole view w) {call : Call} {e : Error}
    (hfail : w.failure R call = some e) :
    (w.volume view).Still ((w.exec R call).volume view) := by
  refine ⟨?_, h.file_kept call (fun fh hrelease => ?_) (issued_of_failure hfail)⟩
  · by_cases hmut : call.Mutates
    · exact view_of_failure hR hmut hfail
    · exact view_of_not_mutates hR hmut
  · rw [hrelease] at hfail
    cases hfail

/-- So does a call that neither mutates nor opens or closes anything. -/
lemma Sole.still_of_reading (hR : Contract R view) (h : Sole view w) (call : Call)
    (hmut : ¬ call.Mutates) (hrelease : ∀ fh, call ≠ .release fh)
    (hissued : Session.issued (w.returned R call) = none) :
    (w.volume view).Still ((w.exec R call).volume view) :=
  ⟨view_of_not_mutates hR hmut, h.file_kept call hrelease hissued⟩

end World

/-! ## One request -/

namespace Volume

variable {ρ : Type} {R : RemoteFilesystem ρ} {view : ρ → Tree} {w : World ρ}

open World

lemma at_of_childPath {parent : NodeId} {text : Str} {path : RemotePath}
    (h : w.childPath parent text = .ok path) :
    (w.volume view).At parent (.utf8 text) path := ⟨text, rfl, names_iff.mpr h⟩

/-- Attributes that have been told show the node. -/
lemma shows_of_told {w' : World ρ} {owner : LinuxOwner} {metadata : FileMetadata}
    {path : RemotePath} (htold : Told (view w'.conn.remote) path metadata.attributes)
    (hpath : w'.state.path metadata.node = some path) :
    (w'.volume view).Shows (fileAttr owner metadata) path := by
  obtain ⟨node, hnode, hkind, hsize⟩ := htold
  exact ⟨hpath, node, hnode, congrArg fileType hkind, hsize⟩

lemma shows_of_still {w' : World ρ} (hstill : (w.volume view).Still (w'.volume view))
    {owner : LinuxOwner} {metadata : FileMetadata} {path : RemotePath}
    (htold : Told (view w.conn.remote) path metadata.attributes)
    (hpath : w'.state.path metadata.node = some path) :
    (w'.volume view).Shows (fileAttr owner metadata) path := by
  have hsame : view w'.conn.remote = view w.conn.remote := hstill.1
  rw [← hsame] at htold
  exact shows_of_told htold hpath

variable {owner : LinuxOwner} {systemNow : Int}

lemma refused_of_failure (hR : Contract R view) (h : Sole view w) (call : Call) {e : Error}
    (hfail : w.failure R call = some e) {request : Request}
    (hcall : request.call systemNow = some call) :
    (w.volume view).Serves ((w.exec R call).volume view) systemNow request (.error (errno e)) :=
  .refused hcall (h.fails hR call hfail)
    (fun hlooks => congrArg errno (h.looks_error hR hlooks hfail)) (h.still_of_failure hR hfail)

open LinuxFilesystem

lemma serves_lookup (hR : Contract R view) (h : Sole view w) (parent : NodeId) (name : OsStr) :
    (w.volume view).Serves
      ((handle R owner systemNow w (.lookup parent name)).2.volume view) systemNow
      (.lookup parent name) (handle R owner systemNow w (.lookup parent name)).1 := by
  cases name with
  | other bytes => exact .unnamed rfl nofun ⟨rfl, rfl⟩
  | utf8 text =>
      show (w.volume view).Serves ((w.exec R (.lookup parent text)).volume view) systemNow _
        (.ofResult _ (w.lookup R parent text).1)
      cases hanswer : (w.lookup R parent text).1 with
      | error e =>
          exact refused_of_failure hR h (.lookup parent text) (congrArg errorOf hanswer) rfl
      | ok metadata =>
          obtain ⟨path, hchild⟩ := childPath_of_lookup hanswer
          obtain ⟨htold, hpath⟩ := h.lookup_told hR hchild hanswer
          have hstill := h.still_of_reading hR (.lookup parent text) id
            (fun _ hc => Call.noConfusion hc) rfl
          exact .lookup (at_of_childPath hchild) hstill (shows_of_still hstill htold hpath)

lemma serves_getattr (hR : Contract R view) (h : Sole view w) (ino : NodeId) :
    (w.volume view).Serves
      ((handle R owner systemNow w (.getattr ino)).2.volume view) systemNow
      (.getattr ino) (handle R owner systemNow w (.getattr ino)).1 := by
  show (w.volume view).Serves ((w.exec R (.getattr ino)).volume view) systemNow _
    (.ofResult _ (w.getattr R ino).1)
  cases hanswer : (w.getattr R ino).1 with
  | error e =>
      exact refused_of_failure hR h (.getattr ino) (congrArg errorOf hanswer) rfl
  | ok metadata =>
      obtain ⟨path, hpath, htold⟩ := h.getattr_told hR hanswer
      have hstill := h.still_of_reading hR (.getattr ino) id
        (fun _ hc => Call.noConfusion hc) rfl
      have hnode : metadata.node = ino := getattr_node (Prod.ext hanswer rfl)
      refine .getattr hpath hstill hnode (shows_of_still hstill htold ?_)
      rw [hnode]
      exact path_kept h.coherent.wf id hpath

lemma serves_mkdir (hR : Contract R view) (h : Sole view w) (parent : NodeId) (name : OsStr)
    (mode umask : UInt32) :
    (w.volume view).Serves
      ((handle R owner systemNow w (.mkdir parent name mode umask)).2.volume view) systemNow
      (.mkdir parent name mode umask)
      (handle R owner systemNow w (.mkdir parent name mode umask)).1 := by
  cases name with
  | other bytes => exact .unnamed rfl nofun ⟨rfl, rfl⟩
  | utf8 text =>
      set call : Call := .mkdir parent text (mode &&& ~~~umask) with hcall
      show (w.volume view).Serves ((w.exec R call).volume view) systemNow _
        (.ofResult _ (w.mkdir R parent text (mode &&& ~~~umask)).1)
      cases hanswer : (w.mkdir R parent text (mode &&& ~~~umask)).1 with
      | error e =>
          exact refused_of_failure hR h call (congrArg errorOf hanswer) rfl
      | ok metadata =>
          obtain ⟨path, hchild, htold, hpath⟩ := h.mkdir_told hR hanswer
          have heffect := effect_of_success hR call trivial (congrArg errorOf hanswer)
          obtain ⟨m, ⟨path', hchild', rfl⟩, heffect⟩ := heffect
          obtain rfl : path' = path := Except.ok.inj (hchild'.symm.trans hchild)
          exact .mkdir (at_of_childPath hchild) heffect
            (h.file_kept call (fun _ hc => Call.noConfusion hc) rfl)
            (shows_of_told htold hpath)

lemma serves_unlink (hR : Contract R view) (h : Sole view w) (parent : NodeId) (name : OsStr) :
    (w.volume view).Serves
      ((handle R owner systemNow w (.unlink parent name)).2.volume view) systemNow
      (.unlink parent name) (handle R owner systemNow w (.unlink parent name)).1 := by
  cases name with
  | other bytes => exact .unnamed rfl nofun ⟨rfl, rfl⟩
  | utf8 text =>
      set call : Call := .unlink parent text with hcall
      show (w.volume view).Serves ((w.exec R call).volume view) systemNow _
        (.ofResult _ (w.unlink R parent text).1)
      cases hanswer : (w.unlink R parent text).1 with
      | error e =>
          exact refused_of_failure hR h call (congrArg errorOf hanswer) rfl
      | ok _ =>
          obtain ⟨m, ⟨path, hchild, rfl⟩, heffect⟩ :=
            effect_of_success hR call trivial (congrArg errorOf hanswer)
          exact .unlink (at_of_childPath hchild) heffect
            (h.file_kept call (fun _ hc => Call.noConfusion hc) rfl)

lemma serves_rmdir (hR : Contract R view) (h : Sole view w) (parent : NodeId) (name : OsStr) :
    (w.volume view).Serves
      ((handle R owner systemNow w (.rmdir parent name)).2.volume view) systemNow
      (.rmdir parent name) (handle R owner systemNow w (.rmdir parent name)).1 := by
  cases name with
  | other bytes => exact .unnamed rfl nofun ⟨rfl, rfl⟩
  | utf8 text =>
      set call : Call := .rmdir parent text with hcall
      show (w.volume view).Serves ((w.exec R call).volume view) systemNow _
        (.ofResult _ (w.rmdir R parent text).1)
      cases hanswer : (w.rmdir R parent text).1 with
      | error e =>
          exact refused_of_failure hR h call (congrArg errorOf hanswer) rfl
      | ok _ =>
          obtain ⟨m, ⟨path, hchild, rfl⟩, heffect⟩ :=
            effect_of_success hR call trivial (congrArg errorOf hanswer)
          exact .rmdir (at_of_childPath hchild) heffect
            (h.file_kept call (fun _ hc => Call.noConfusion hc) rfl)

lemma serves_create (hR : Contract R view) (h : Sole view w) (parent : NodeId) (name : OsStr)
    (mode umask : UInt32) (flags : FuseOpenFlags) :
    (w.volume view).Serves
      ((handle R owner systemNow w (.create parent name mode umask flags)).2.volume view) systemNow
      (.create parent name mode umask flags)
      (handle R owner systemNow w (.create parent name mode umask flags)).1 := by
  cases name with
  | other bytes => exact .unnamed rfl nofun ⟨rfl, rfl⟩
  | utf8 text =>
      set call : Call := .create parent text (mode &&& ~~~umask) (openFlags flags) with hcall
      show (w.volume view).Serves ((w.exec R call).volume view) systemNow _
        (.ofResult _ (w.create R parent text (mode &&& ~~~umask) (openFlags flags)).1)
      cases hanswer : (w.create R parent text (mode &&& ~~~umask) (openFlags flags)).1 with
      | error e => exact refused_of_failure hR h call (congrArg errorOf hanswer) rfl
      | ok created =>
          obtain ⟨path, hchild, htold, hpath, hnew, hfile⟩ := h.create_told hR hanswer
          obtain ⟨m, ⟨path', hchild', rfl⟩, heffect⟩ :=
            effect_of_success hR call trivial (congrArg errorOf hanswer)
          obtain rfl : path' = path := Except.ok.inj (hchild'.symm.trans hchild)
          exact .create (at_of_childPath hchild) heffect
            (congrArg (Option.map OpenFile.path) hnew) (file_issued hfile)
            (shows_of_told htold hpath)

lemma serves_setattr (hR : Contract R view) (h : Sole view w) (ino : NodeId)
    (mode : Option UInt32) (size : Option UInt64) (atime mtime : Option TimeOrNow) :
    (w.volume view).Serves
      ((handle R owner systemNow w (.setattr ino mode size atime mtime)).2.volume view) systemNow
      (.setattr ino mode size atime mtime)
      (handle R owner systemNow w (.setattr ino mode size atime mtime)).1 := by
  set attributes : SetAttributes :=
    { size := size
      mode := mode
      accessedUnixSeconds := timeOrNow systemNow atime
      modifiedUnixSeconds := timeOrNow systemNow mtime } with hattributes
  set call : Call := .setattr ino attributes with hcall
  show (w.volume view).Serves ((w.exec R call).volume view) systemNow _
    (.ofResult _ (w.setattr R ino attributes).1)
  cases hanswer : (w.setattr R ino attributes).1 with
  | error e => exact refused_of_failure hR h call (congrArg errorOf hanswer) rfl
  | ok metadata =>
      obtain ⟨hnode, path, hpath, htold⟩ := Sole.setattr_told hR hanswer
      obtain ⟨m, ⟨path', hpath', rfl⟩, heffect⟩ :=
        effect_of_success hR call trivial (congrArg errorOf hanswer)
      obtain rfl : path' = path := Option.some.inj (hpath'.symm.trans hpath)
      refine .setattr hpath rfl heffect
        (h.file_kept call (fun _ hc => Call.noConfusion hc) rfl) hnode (shows_of_told htold ?_)
      rw [hnode]
      exact path_kept h.coherent.wf id hpath

lemma serves_openFile (hR : Contract R view) (h : Sole view w) (ino : NodeId)
    (flags : FuseOpenFlags) :
    (w.volume view).Serves
      ((handle R owner systemNow w (.openFile ino flags)).2.volume view) systemNow
      (.openFile ino flags) (handle R owner systemNow w (.openFile ino flags)).1 := by
  set call : Call := .openFile ino (openFlags flags) with hcall
  show (w.volume view).Serves ((w.exec R call).volume view) systemNow _
    (.ofResult _ (w.openFile R ino (openFlags flags)).1)
  cases hanswer : (w.openFile R ino (openFlags flags)).1 with
  | error e => exact refused_of_failure hR h call (congrArg errorOf hanswer) rfl
  | ok fh =>
      obtain ⟨path, hpath, hnew, hfile⟩ := openFile_table h.coherent.wf hanswer
      refine .opened hpath ?_ (congrArg (Option.map OpenFile.path) hnew) (file_issued hfile)
      split
      · next htruncate =>
          obtain ⟨m, ⟨-, path', hpath', rfl⟩, heffect⟩ :=
            effect_of_success hR call htruncate (congrArg errorOf hanswer)
          obtain rfl : path' = path := Option.some.inj (hpath'.symm.trans hpath)
          exact heffect
      · next htruncate =>
          have hmut : ¬ call.Mutates := htruncate
          exact view_of_not_mutates hR hmut

lemma serves_read (hR : Contract R view) (h : Sole view w) (fh : FileHandle) (offset : UInt64)
    (size : UInt32) :
    (w.volume view).Serves
      ((handle R owner systemNow w (.read fh offset size)).2.volume view) systemNow
      (.read fh offset size) (handle R owner systemNow w (.read fh offset size)).1 := by
  set call : Call := .read fh offset size with hcall
  show (w.volume view).Serves ((w.exec R call).volume view) systemNow _
    (.ofResult _ (w.read R fh offset size).1)
  cases hanswer : (w.read R fh offset size).1 with
  | error e => exact refused_of_failure hR h call (congrArg errorOf hanswer) rfl
  | ok data =>
      cases hfile : w.state.file fh with
      | none => simp [World.read, hfile] at hanswer
      | some file =>
          obtain ⟨node, hnode, hdata⟩ := h.read_told hR hfile hanswer
          refine .read (congrArg (Option.map OpenFile.path) hfile) hnode (fun f m hf => ?_)
            (h.still_of_reading hR call id (fun _ hc => Call.noConfusion hc) rfl)
          rw [hdata f m hf, Store.requested, slice_min_length]

lemma serves_write (hR : Contract R view) (h : Sole view w) (fh : FileHandle) (offset : UInt64)
    (data : Bytes) :
    (w.volume view).Serves
      ((handle R owner systemNow w (.write fh offset data)).2.volume view) systemNow
      (.write fh offset data) (handle R owner systemNow w (.write fh offset data)).1 := by
  set call : Call := .write fh offset data with hcall
  show (w.volume view).Serves ((w.exec R call).volume view) systemNow _
    (.ofResult _ (w.write R fh offset data).1)
  cases hanswer : (w.write R fh offset data).1 with
  | error e => exact refused_of_failure hR h call (congrArg errorOf hanswer) rfl
  | ok written =>
      obtain ⟨m, ⟨file, hfile, rfl⟩, heffect⟩ :=
        effect_of_success hR call trivial (congrArg errorOf hanswer)
      obtain rfl := Sole.write_told hR hanswer
      exact .write (congrArg (Option.map OpenFile.path) hfile) heffect
        (h.file_kept call (fun _ hc => Call.noConfusion hc) rfl)

lemma serves_release (fh : FileHandle) :
    (w.volume view).Serves
      ((handle R owner systemNow w (.release fh)).2.volume view) systemNow
      (.release fh) (handle R owner systemNow w (.release fh)).1 := by
  refine .release rfl (funext fun g => ?_)
  show ((w.state.close fh).file g).map _ = _
  rw [State.file_close]
  by_cases hg : g = fh
  · rw [if_pos hg, hg, Function.update_self]
    rfl
  · rw [if_neg hg, Function.update_of_ne hg]
    rfl

lemma serves_readdir (hR : Contract R view) (h : Sole view w) (ino : NodeId)
    (offset capacity : ℕ) :
    (w.volume view).Serves
      ((handle R owner systemNow w (.readdir ino offset capacity)).2.volume view) systemNow
      (.readdir ino offset capacity)
      (handle R owner systemNow w (.readdir ino offset capacity)).1 := by
  set call : Call := .readdir ino with hcall
  cases hanswer : w.readdir R ino with
  | mk answer w' =>
      have hworld : w.exec R call = w' := congrArg Prod.snd hanswer
      have hfirst : (w.readdir R ino).1 = answer := congrArg Prod.fst hanswer
      simp only [handle, LinuxFilesystem.readdir, hanswer]
      cases answer with
      | error e =>
          have hfail : (w.volume view).Serves ((w.exec R call).volume view) systemNow
              (.readdir ino offset capacity) (.error (errno e)) :=
            refused_of_failure hR h call (congrArg errorOf hfirst) rfl
          rw [hworld] at hfail
          exact hfail
      | ok entries =>
          obtain ⟨dir, hdir, hexact, hentries⟩ := h.readdir_told hR hfirst
          have hstill := h.still_of_reading hR call id (fun _ hc => Call.noConfusion hc) rfl
          rw [hworld] at hstill hentries
          have hlisted : ∀ entry ∈ entries.zipIdx.map replyEntry,
              (w'.volume view).Lists dir entry := by
            intro entry hentry
            obtain ⟨x, hx, rfl⟩ := List.mem_map.mp hentry
            obtain ⟨child, hchild, hkind, p, hjoin, hp⟩ :=
              hentries x.1 (List.fst_mem_of_mem_zipIdx hx)
            refine ⟨⟨p, hjoin, hp⟩, child, ?_, congrArg fileType hkind⟩
            rw [hstill.1]
            exact hchild
          refine .readdir hdir hstill ?_ hlisted ?_
          · have hnames : (entries.zipIdx.map replyEntry).map ReplyEntry.name =
                (entries.zipIdx.map Prod.fst).map DirectoryEntry.name := by
              rw [List.map_map, List.map_map]
              rfl
            rw [hnames, List.zipIdx_map_fst]
            exact hexact
          · rw [addEntries_entries, ← List.map_drop, ← List.map_take]
            rfl

/-- **One request is served as the volume serves it.** -/
lemma serves (hR : Contract R view) (h : Sole view w) (request : Request)
    (hrename : ∀ parent name newparent newname flags,
      request ≠ .rename parent name newparent newname flags) :
    (w.volume view).Serves ((handle R owner systemNow w request).2.volume view) systemNow request
      (handle R owner systemNow w request).1 := by
  cases request with
  | lookup parent name => exact serves_lookup hR h parent name
  | getattr ino => exact serves_getattr hR h ino
  | setattr ino mode size atime mtime => exact serves_setattr hR h ino mode size atime mtime
  | mkdir parent name mode umask => exact serves_mkdir hR h parent name mode umask
  | unlink parent name => exact serves_unlink hR h parent name
  | rmdir parent name => exact serves_rmdir hR h parent name
  | rename parent name newparent newname flags => exact absurd rfl (hrename _ _ _ _ _)
  | openFile ino flags => exact serves_openFile hR h ino flags
  | read fh offset size => exact serves_read hR h fh offset size
  | write fh offset data => exact serves_write hR h fh offset data
  | flush fh => exact .flush ⟨rfl, rfl⟩
  | release fh => exact serves_release fh
  | opendir ino => exact .opendir ⟨rfl, rfl⟩
  | readdir ino offset capacity => exact serves_readdir hR h ino offset capacity
  | create parent name mode umask flags => exact serves_create hR h parent name mode umask flags

end Volume

/-! ## Runs -/

/-- The event is no rename, and no change made by others. -/
def KernelEvent.Quiet {ρ : Type} : KernelEvent ρ → Prop
  | .request _ (.rename _ _ _ _ _) => False
  | .request _ _ => True
  | .beside (.tick _) => True
  | .beside (.external _) => False

namespace Kernel

variable {ρ : Type} {R : RemoteFilesystem ρ} {view : ρ → Tree} {owner : LinuxOwner}

/-- A request that is no rename makes no call of one. -/
lemma not_renames_of_call {systemNow : Int} {request : Request} {call : Call}
    (hquiet : (KernelEvent.request systemNow request : KernelEvent ρ).Quiet)
    (h : request.call systemNow = some call) : ¬ call.Renames := by
  cases request with
  | rename _ _ _ _ _ => exact hquiet.elim
  | lookup _ name =>
      cases name with
      | other _ => cases h
      | utf8 _ =>
          cases h
          exact id
  | mkdir _ name _ _ =>
      cases name with
      | other _ => cases h
      | utf8 _ =>
          cases h
          exact id
  | unlink _ name =>
      cases name with
      | other _ => cases h
      | utf8 _ =>
          cases h
          exact id
  | rmdir _ name =>
      cases name with
      | other _ => cases h
      | utf8 _ =>
          cases h
          exact id
  | create _ name _ _ _ =>
      cases name with
      | other _ => cases h
      | utf8 _ =>
          cases h
          exact id
  | _ => cases h <;> exact id

/-- An event keeps what holds of the only client. -/
lemma sole_step (hR : Contract R view) {k : Kernel ρ} {e : KernelEvent ρ} (he : e.Quiet)
    (h : World.Sole view k.world) : World.Sole view (k.step R owner e).world := by
  cases e with
  | beside event =>
      cases event with
      | tick d => exact h.tick hR d
      | external remote => exact he.elim
  | request systemNow request =>
      rw [step_request]
      cases hcall : request.call systemNow with
      | none =>
          rw [(LinuxFilesystem.handle_none (R := R) (w := k.world) owner hcall).1]
          exact h
      | some call =>
          rw [(LinuxFilesystem.handle_call (R := R) (w := k.world) owner hcall).1]
          exact h.exec hR (not_renames_of_call he hcall)

/-- The event is served as the volume of the mount serves it, and inode numbers keep their paths. -/
def Serves (R : RemoteFilesystem ρ) (owner : LinuxOwner) (view : ρ → Tree) (k : Kernel ρ)
    (e : KernelEvent ρ) : Prop :=
  let v := k.world.volume view
  let v' := (k.step R owner e).world.volume view
  (∀ ino path, v.inode ino = some path → v'.inode ino = some path) ∧
    match e with
    | .request systemNow request =>
        v.Serves v' systemNow request (LinuxFilesystem.handle R owner systemNow k.world request).1
    | .beside _ => v.Still v'

lemma serves_step (hR : Contract R view) {k : Kernel ρ} {e : KernelEvent ρ} (he : e.Quiet)
    (h : World.Sole view k.world) : Serves R owner view k e := by
  cases e with
  | beside event =>
      cases event with
      | tick d => exact ⟨fun _ _ hpath => hpath, rfl, rfl⟩
      | external remote => exact he.elim
  | request systemNow request =>
      refine ⟨fun ino path hpath => ?_, Volume.serves hR h request ?_⟩
      · show ((LinuxFilesystem.handle R owner systemNow k.world request).2).state.path ino = _
        cases hcall : request.call systemNow with
        | none =>
            rw [(LinuxFilesystem.handle_none (R := R) (w := k.world) owner hcall).1]
            exact hpath
        | some call =>
            rw [(LinuxFilesystem.handle_call (R := R) (w := k.world) owner hcall).1]
            exact World.path_kept h.coherent.wf (not_renames_of_call he hcall) hpath
      · rintro parent name newparent newname flags rfl
        exact he

end Kernel

/-! ## Over SFTP -/

namespace Kernel

variable {σ φ : Type} {S : SftpSession σ φ} {view : σ → Tree} {cursor : φ → σ → Option Cursor}

/-- **A mount over SFTP is a tree of files.**  In every run from an empty cache, at every TTL, of
requests that rename nothing, on a server that is used by nobody else, every request is served as
the tree of the server serves it. -/
theorem mount_serves_tree (hS : Reliable S view cursor) (hL : S.Lists view) (timeout : ℕ)
    (owner : LinuxOwner) (config : Config) (hmode : config.cacheMode = .onDemand) (conn : Conn σ)
    (es : List (KernelEvent σ)) (hes : ∀ e ∈ es, e.Quiet) :
    AllSteps (step (S.backend timeout) owner) (Serves (S.backend timeout) owner view)
      (start (World.new config Disk.empty conn)) es := by
  have hR := SftpSession.contract hS hL timeout
  have hkeep : ∀ (k : Kernel σ) (e : KernelEvent σ), e.Quiet → World.Sole view k.world →
      World.Sole view (k.step (S.backend timeout) owner e).world :=
    fun _ _ he h => sole_step hR he h
  have hserve : ∀ (k : Kernel σ) (e : KernelEvent σ), e.Quiet → World.Sole view k.world →
      Serves (S.backend timeout) owner view k e := fun _ _ he h => serves_step hR he h
  exact allSteps_of_invariant hkeep hserve (World.sole_new hmode conn) (allSteps_of_forall hes)

/-- The file `/s` of the sample server is looked up, opened, written to and read. -/
def writtenAndRead : List (KernelEvent Served) :=
  [.request 0 (.lookup NodeId.root (.utf8 ['s'])), .request 0 (.openFile ⟨2⟩ ⟨.rdwr, 0⟩),
    .request 0 (.write ⟨1⟩ 1 [5]), .beside (.tick 1), .request 0 (.read ⟨1⟩ 0 8)]

theorem mount_serves_tree_example :
    AllSteps (step (Served.session.backend 30) ⟨1000, 1000⟩)
      (Serves (Served.session.backend 30) ⟨1000, 1000⟩ Served.view)
      (start (World.new ⟨.root, false, .onDemand, 5 * 10 ^ 9, 4⟩ Disk.empty
        ⟨Served.sample, 0, []⟩)) writtenAndRead := by
  refine mount_serves_tree Served.reliable Served.lists 30 _ _ rfl _ _ fun e he => ?_
  simp only [writtenAndRead, List.mem_cons, List.not_mem_nil, or_false] at he
  rcases he with rfl | rfl | rfl | rfl | rfl <;> exact trivial

end Kernel

end CacheShfs
