import CacheShfs.Sftp.Server

/-!
# A server in memory

A session with a server that keeps its tree in memory, gives at most two bytes of a file at a time,
and keeps the modification times of files as the protocol has them.  It satisfies every assumption
of `Sftp.Server`, so those assumptions can be met together.
-/

namespace CacheShfs

open Slice

/-- A file whose time the protocol can carry. -/
def RemoteNode.Stamped : RemoteNode → Prop
  | .dir => True
  | .file _ modified => ∃ mtime : Option UInt32, modified = mtime.map fun t => (t.toNat : Int)

/-- The state of the session: the server's tree, and the files that have been opened. -/
structure Served where
  memory : Memory
  stamped : ∀ q node, memory.tree q = some node → node.Stamped
  opened : List Cursor

namespace Served

/-- The tree of the server. -/
def view (s : Served) : Tree := s.memory.tree

/-- Where an open file stands. -/
def cursor (file : ℕ) (s : Served) : Option Cursor := s.opened[file]?

def put (p : Str) (node : RemoteNode) (hfits : node.Fits) (hstamped : node.Stamped) (s : Served) :
    Served where
  memory := s.memory.put p node hfits
  stamped q node' h := by
    by_cases hq : q = p
    · simp only [Memory.put, hq, Function.update_self] at h
      cases h
      exact hstamped
    · simp only [Memory.put, Function.update_of_ne hq] at h
      exact s.stamped q node' h
  opened := s.opened

def delete (p : Str) (s : Served) : Served where
  memory := s.memory.delete p
  stamped q node h := by
    by_cases hq : q = p
    · simp [Memory.delete, hq] at h
    · simp only [Memory.delete, Function.update_of_ne hq] at h
      exact s.stamped q node h
  opened := s.opened

def move (src dst : Str) (s : Served) : Served where
  memory := s.memory.move src dst
  stamped q node h := by
    rcases Memory.rename_origin h with ⟨-, h⟩ | ⟨-, h⟩ | h <;> exact s.stamped _ node h
  opened := s.opened

/-- A server that has the file `/s`. -/
def sample : Served :=
  put ['/', 's'] (.file [7, 8, 9] none) (by decide) ⟨none, rfl⟩
    { memory := Memory.empty
      stamped q node h := by
        by_cases hq : q = ['/']
        · simp only [Memory.empty, hq, Function.update_self] at h
          cases h
          trivial
        · simp [Memory.empty, Function.update_of_ne hq] at h
      opened := [] }

/-- A new open file at the beginning of a path. -/
def openAt (p : Str) (s : Served) : Served := { s with opened := s.opened ++ [⟨p, 0⟩] }

/-- An open file moved to a position. -/
def moveTo (file : ℕ) (c : Cursor) (position : ℕ) (s : Served) : Served :=
  { s with opened := s.opened.set file { c with position := position } }

/-- Other bytes leave the time of a file as it is. -/
lemma stamped_content (s : Served) {q : Str} {f f' : Bytes} {m : Option Int}
    (h : s.memory.tree q = some (.file f m)) : (RemoteNode.file f' m).Stamped :=
  s.stamped q (.file f m) h

/-! ## Requests -/

def noSuchFile : SftpError := .status .noSuchFile "no such file"

def failure : SftpError := .status (.other 4) "failure"

def badHandle : IoError := ⟨.other, "bad handle"⟩

/-- The attributes that the server reports for a node. -/
def attributes : RemoteNode → SftpAttributes
  | .dir => { permissions := some 0o040755 }
  | .file content modified =>
      { size := some (UInt64.ofNat content.length)
        permissions := some 0o100644
        mtime := modified.map fun m => UInt32.ofNat m.toNat }

/-- The type in the permissions. -/
def fileType (metadata : SftpAttributes) : SftpFileType :=
  if metadata.permissions.getD 0 &&& 0o170000 = 0o040000 then .dir
  else if metadata.permissions.getD 0 &&& 0o170000 = 0o120000 then .symlink
  else .other

def metadata (path : Str) (s : Served) : Except SftpError SftpAttributes × Served :=
  match s.memory.tree path with
  | some node => (.ok (attributes node), s)
  | none => (.error noSuchFile, s)

def readDir (path : Str) (s : Served) : Except SftpError (List (Str × SftpAttributes)) × Served :=
  match s.memory.tree path with
  | some .dir => (.ok ((s.memory.names path).filterMap fun name =>
      (s.memory.tree (childKey path name)).map fun node => (name, attributes node)), s)
  | some (.file _ _) => (.error failure, s)
  | none => (.error noSuchFile, s)

def openFile (path : Str) (how : SftpOpen) (s : Served) : Except SftpError ℕ × Served :=
  match how with
  | .createNew _ =>
      if s.memory.tree path ≠ none then (.error failure, s)
      else if s.memory.tree (Memory.parentKey path) ≠ some .dir then (.error noSuchFile, s)
      else (.ok s.opened.length,
        (s.put path (.file [] none) RemoteNode.empty_fits ⟨none, rfl⟩).openAt path)
  | _ =>
      match s.memory.tree path with
      | some (.file _ _) => (.ok s.opened.length, s.openAt path)
      | some .dir => (.error failure, s)
      | none => (.error noSuchFile, s)

def createDir (path : Str) (s : Served) : Except SftpError Unit × Served :=
  if s.memory.tree path ≠ none then (.error failure, s)
  else if s.memory.tree (Memory.parentKey path) ≠ some .dir then (.error noSuchFile, s)
  else (.ok (), s.put path .dir trivial trivial)

/-- The node after its attributes have been set.  The request carries both times or none: if only
one is given, the other is zero. -/
def setTo (attributes : SftpAttributes) : RemoteNode → RemoteNode
  | .dir => .dir
  | .file content modified => .file (resize content attributes.size)
      (if attributes.atime = none ∧ attributes.mtime = none then modified
        else some ((attributes.mtime.getD 0).toNat : Int))

lemma stamped_setTo (attributes : SftpAttributes) {node : RemoteNode} (h : node.Stamped) :
    (setTo attributes node).Stamped := by
  cases node with
  | dir => trivial
  | file content modified =>
      simp only [setTo]
      split
      · exact h
      · exact ⟨some (attributes.mtime.getD 0), rfl⟩

def setMetadata (path : Str) (attributes : SftpAttributes) (s : Served) :
    Except SftpError Unit × Served :=
  match h : s.memory.tree path with
  | some node =>
      if hfits : (setTo attributes node).Fits then
        (.ok (), s.put path _ hfits (stamped_setTo attributes (s.stamped path node h)))
      else (.error failure, s)
  | none => (.error noSuchFile, s)

def removeFile (path : Str) (s : Served) : Except SftpError Unit × Served :=
  match s.memory.tree path with
  | some (.file _ _) => (.ok (), s.delete path)
  | some .dir => (.error failure, s)
  | none => (.error noSuchFile, s)

def removeDir (path : Str) (s : Served) : Except SftpError Unit × Served :=
  match s.memory.tree path with
  | some .dir =>
      if s.memory.Occupied path then (.error failure, s) else (.ok (), s.delete path)
  | some (.file _ _) => (.error failure, s)
  | none => (.error noSuchFile, s)

def rename (src dst : Str) (s : Served) : Except SftpError Unit × Served :=
  match s.memory.tree src with
  | some node =>
      if src = dst then (.ok (), s)
      else if Below src dst ∨ s.memory.Occupied dst ∨
          (s.memory.tree dst).any (fun old => decide (old.kind ≠ node.kind)) then
        (.error failure, s)
      else (.ok (), s.move src dst)
  | none => (.error noSuchFile, s)

def seek (file : ℕ) (offset : ℕ) (s : Served) : Except IoError Unit × Served :=
  match s.opened[file]? with
  | some c => (.ok (), s.moveTo file c offset)
  | none => (.error badHandle, s)

/-- At most two bytes are given at a time. -/
def readFile (file : ℕ) (size : ℕ) (s : Served) : Except IoError Bytes × Served :=
  match s.opened[file]? with
  | some c =>
      match s.memory.tree c.path with
      | some (.file f _) =>
          let data := slice f c.position (c.position + min size 2)
          (.ok data, s.moveTo file c (c.position + data.length))
      | _ => (.error badHandle, s)
  | none => (.error badHandle, s)

/-- Without data nothing is sent. -/
def writeAll (file : ℕ) (data : Bytes) (s : Served) : Except IoError Unit × Served :=
  if data = [] then (.ok (), s)
  else match s.opened[file]? with
  | some c =>
      match h : s.memory.tree c.path with
      | some (.file f m) =>
          if hfits : (RemoteNode.file (Memory.overwrite f c.position data) m).Fits then
            (.ok (), (s.put c.path _ hfits (s.stamped_content h)).moveTo file c
              (c.position + data.length))
          else (.error badHandle, s)
      | _ => (.error badHandle, s)
  | none => (.error badHandle, s)

/-- The session. -/
def session : SftpSession Served ℕ where
  metadata := metadata
  readDir := readDir
  openFile := openFile
  createDir := createDir
  setMetadata := setMetadata
  removeFile := removeFile
  removeDir := removeDir
  rename := rename
  seek := seek
  readFile := readFile
  writeAll := writeAll
  flush _ s := (.ok (), s)
  fileType := fileType
  timesOut _ := false
  cancel s := s

/-! ## What is assumed of a server -/

/-- The attributes that the server reports describe the node. -/
lemma describes {node : RemoteNode} (hfits : node.Fits) (hstamped : node.Stamped) :
    Describes (session.fileAttributes (attributes node)) node := by
  cases node with
  | dir => rfl
  | file content modified =>
      obtain ⟨mtime, rfl⟩ := hstamped
      have hlt : content.length < 2 ^ 64 := lt_of_le_of_lt hfits (by decide)
      have htype : fileType (attributes (.file content
          (mtime.map fun t => (t.toNat : Int)))) = .other := by
        show (if (0o100644 : UInt32) &&& 0o170000 = 0o040000 then SftpFileType.dir
          else if (0o100644 : UInt32) &&& 0o170000 = 0o120000 then .symlink else .other) = .other
        decide
      refine ⟨?_, Nat.mod_eq_of_lt hlt, ?_⟩
      · simp only [SftpSession.fileAttributes, session, htype]
      cases mtime with
      | none => rfl
      | some t => simp [SftpSession.fileAttributes, attributes]

/-- An open file that has just been opened. -/
lemma cursor_openAt (p : Str) (s : Served) : cursor s.opened.length (s.openAt p) = some ⟨p, 0⟩ := by
  simp [cursor, openAt]

lemma cursor_moveTo {file : ℕ} {c c' : Cursor} {s : Served} (h : cursor file s = some c)
    (position : ℕ) :
    cursor file (s.moveTo file c' position) = some { c' with position := position } := by
  obtain ⟨hlt, -⟩ := List.getElem?_eq_some_iff.mp h
  simp [cursor, moveTo, hlt]

lemma sets_setTo (a : SftpAttributes) (node : RemoteNode) : a.Sets node (setTo a node) := by
  cases node with
  | dir => rfl
  | file content modified =>
      refine ⟨_, rfl, fun mtime h => ?_⟩
      rw [if_neg (by simp [h]), h]
      rfl

/-! The requests one by one. -/

lemma metadata_describes {p : RemotePath} {s : Served} {md : SftpAttributes}
    (h : (session.metadata p.asStr s).1 = .ok md) :
    ∃ node, view s p.asStr = some node ∧ Describes (session.fileAttributes md) node := by
  simp only [session, metadata] at h
  split at h
  · next node hnode =>
      cases h
      exact ⟨node, hnode, describes (s.memory.fits _ _ hnode) (s.stamped _ _ hnode)⟩
  · cases h

/-- A file that is opened, for reading or writing. -/
lemma openFile_opens (p : Str) {how : SftpOpen} (s : Served)
    (hhow : how = .read ∨ how = .write) : view (session.openFile p how s).2 = view s ∧
      ∀ file, (session.openFile p how s).1 = .ok file →
        (∃ f m, view s p = some (.file f m)) ∧
          cursor file (session.openFile p how s).2 = some ⟨p, 0⟩ := by
  cases hnode : s.memory.tree p with
  | none => rcases hhow with rfl | rfl <;> simp [session, openFile, hnode]
  | some node =>
      cases node with
      | dir => rcases hhow with rfl | rfl <;> simp [session, openFile, hnode]
      | file f m =>
          have hopened : session.openFile p how s = (.ok s.opened.length, s.openAt p) := by
            rcases hhow with rfl | rfl <;> simp only [session, openFile, hnode]
          rw [hopened]
          refine ⟨rfl, fun file h => ?_⟩
          obtain rfl := Except.ok.inj h
          exact ⟨⟨f, m, hnode⟩, cursor_openAt p s⟩

lemma readFile_gives {file size : ℕ} {s : Served} {c : Cursor} {data : Bytes}
    (h : cursor file s = some c) (hok : (session.readFile file size s).1 = .ok data) :
    (∃ f m, view s c.path = some (.file f m) ∧
      data <+: slice f c.position (c.position + size) ∧
      (c.position < f.length → 0 < size → data ≠ [])) ∧
    cursor file (session.readFile file size s).2 =
      some { c with position := c.position + data.length } := by
  have hopened : s.opened[file]? = some c := h
  simp only [session, readFile, hopened] at hok ⊢
  split at hok
  · next f m hfile =>
      cases hok
      refine ⟨⟨f, m, hfile, ?_, fun hlt hsize => ?_⟩, ?_⟩
      · have hle : c.position + min size 2 ≤ c.position + size := by omega
        exact ⟨_, slice_append f (Nat.le_add_right _ _) hle⟩
      · apply List.ne_nil_of_length_pos
        rw [length_slice]
        omega
      · exact cursor_moveTo h _
  · cases hok

lemma writeAll_made {file offset : ℕ} {p : RemotePath} {data : Bytes} {s : Served}
    (hdata : data ≠ []) (h : cursor file s = some ⟨p.asStr, offset⟩) :
    Makes view (.write p offset data) s (session.writeAll file data s) := by
  have hopened : s.opened[file]? = some ⟨p.asStr, offset⟩ := h
  simp only [session, writeAll, hopened, if_neg hdata]
  split
  · next f m hfile =>
      split
      · refine makes_effect ⟨f, m, m, hfile, ?_⟩
        rw [written, if_neg hdata]
        rfl
      · exact makes_none rfl
  · exact makes_none rfl

lemma create_made (p : RemotePath) (a : SftpAttributes) (s : Served) :
    Makes view (.create p) s (session.openFile p.asStr (.createNew a) s) := by
  simp only [session, openFile]
  split
  · exact makes_none rfl
  · next hnone =>
      split
      · exact makes_none rfl
      · have heffect : (Change.create p).Effect (view s)
            (view ((s.put p.asStr (.file [] none) RemoteNode.empty_fits ⟨none, rfl⟩).openAt
              p.asStr)) := ⟨not_not.mp hnone, none, rfl⟩
        exact makes_effect heffect

lemma createDir_made (p : RemotePath) (s : Served) :
    Makes view (.createDir p) s (session.createDir p.asStr s) := by
  simp only [session, createDir]
  split
  · exact makes_none rfl
  · next hnone =>
      split
      · exact makes_none rfl
      · have heffect : (Change.createDir p).Effect (view s)
            (view (s.put p.asStr .dir trivial trivial)) := ⟨not_not.mp hnone, rfl⟩
        exact makes_effect heffect

lemma removeFile_made (p : RemotePath) (s : Served) :
    Makes view (.removeFile p) s (session.removeFile p.asStr s) := by
  simp only [session, removeFile]
  split
  · next f m hfile =>
      have heffect : (Change.removeFile p).Effect (view s) (view (s.delete p.asStr)) :=
        ⟨⟨f, m, hfile⟩, rfl⟩
      exact makes_effect heffect
  · exact makes_none rfl
  · exact makes_none rfl

lemma removeDir_made (p : RemotePath) (s : Served) :
    Makes view (.removeDir p) s (session.removeDir p.asStr s) := by
  simp only [session, removeDir]
  split
  · next hdir =>
      split
      · exact makes_none rfl
      · next hfree =>
          have heffect : (Change.removeDir p).Effect (view s) (view (s.delete p.asStr)) :=
            ⟨hdir, fun q => Memory.below_of_not_occupied hfree, rfl⟩
          exact makes_effect heffect
  · exact makes_none rfl
  · exact makes_none rfl

lemma rename_made (src dst : RemotePath) (s : Served) :
    Makes view (.rename src dst) s (session.rename src.asStr dst.asStr s) := by
  simp only [session, rename]
  split
  · next node hnode =>
      by_cases heq : src = dst
      · subst heq
        rw [if_pos rfl]
        have heffect : (Change.rename src src).Effect (view s) (view s) :=
          ⟨⟨node, hnode⟩, not_below_self _, fun hne => absurd rfl hne, by rw [if_pos rfl]⟩
        exact makes_effect heffect
      · rw [if_neg fun h => heq (RemotePath.ext h)]
        split
        · exact makes_none rfl
        · next hok =>
            obtain ⟨hbelow, hfree, -⟩ : ¬ Below src.asStr dst.asStr ∧
                ¬ s.memory.Occupied dst.asStr ∧ _ := by simpa only [not_or] using hok
            have heffect : (Change.rename src dst).Effect (view s)
                (view (s.move src.asStr dst.asStr)) :=
              ⟨⟨node, hnode⟩, hbelow, fun _ q => Memory.below_of_not_occupied hfree,
                by rw [if_neg heq]; rfl⟩
            exact makes_effect heffect
  · exact makes_none rfl

lemma setMetadata_made (p : RemotePath) (a : SftpAttributes) (s : Served) :
    Makes view (.set p a) s (session.setMetadata p.asStr a s) := by
  simp only [session, setMetadata]
  split
  · next node hnode =>
      split
      · next hfits =>
          have heffect : (Change.set p a).Effect (view s) (view (s.put p.asStr _ hfits
              (stamped_setTo a (s.stamped p.asStr node hnode)))) :=
            ⟨node, _, hnode, sets_setTo a node, rfl⟩
          exact makes_effect heffect
      · exact makes_none rfl
  · exact makes_none rfl

lemma server : Server session view cursor where
  metadata_view path s := by
    simp only [session, metadata]
    split <;> rfl
  metadata_ok _ _ _ h := metadata_describes h
  readDir_view path s := by
    simp only [session, readDir]
    split <;> rfl
  read_opens p s := by
    obtain ⟨hview, hopened⟩ := openFile_opens p.asStr s (.inl rfl)
    exact ⟨hview, fun file h => (hopened file h).2⟩
  write_opens p s := openFile_opens p.asStr s (.inr rfl)
  seek_view file offset s := by
    simp only [session, seek]
    split <;> rfl
  seek_ok file offset s c h _ := by
    have hopened : s.opened[file]? = some c := h
    simp only [session, seek, hopened]
    exact cursor_moveTo h offset
  readFile_view file size s := by
    simp only [session, readFile]
    split
    · split <;> rfl
    · rfl
  readFile_ok _ _ _ _ _ h hok := readFile_gives h hok
  writeAll_nil _ _ := by simp only [session, writeAll, if_true]
  writeAll_makes _ _ _ _ _ hdata h := writeAll_made hdata h
  flush_view _ _ := rfl
  create_makes := create_made
  createDir_makes := createDir_made
  removeFile_makes := removeFile_made
  removeDir_makes := removeDir_made
  rename_makes := rename_made
  setMetadata_makes := setMetadata_made
  cancel_view _ := rfl
  file_size s q _ _ h := s.memory.fits q _ h

lemma reliable : Reliable session view cursor where
  toServer := server
  in_time _ := rfl
  metadata_some p s node h := by
    have hnode : s.memory.tree p.asStr = some node := h
    exact ⟨attributes node, by simp only [session, metadata, hnode]⟩
  metadata_none p s h := by
    have hnone : s.memory.tree p.asStr = none := h
    refine ⟨"no such file", ?_⟩
    simp only [session, metadata, hnone, noSuchFile]
  readDir_some p s h := by
    have hdir : s.memory.tree p.asStr = some .dir := h
    simp only [session, readDir, hdir]
    exact ⟨_, rfl⟩
  read_file p s f m h := by
    have hfile : s.memory.tree p.asStr = some (.file f m) := h
    exact ⟨s.opened.length, by simp only [session, openFile, hfile]⟩
  read_other p s h := by
    simp only [session, openFile]
    split
    · next f m hfile => exact absurd hfile (h f m)
    · exact ⟨_, rfl⟩
    · exact ⟨_, rfl⟩
  seek_some file offset s c h := by
    have hopened : s.opened[file]? = some c := h
    simp only [session, seek, hopened]
  readFile_some file size s c f m h hfile := by
    have hopened : s.opened[file]? = some c := h
    have hnode : s.memory.tree c.path = some (.file f m) := hfile
    simp only [session, readFile, hopened, hnode]
    exact ⟨_, rfl⟩
  writeAll_refuses file data s c h e := by
    have hopened : s.opened[file]? = some c := h
    simp only [session, writeAll, hopened]
    split
    · exact nofun
    · split
      · split
        · exact nofun
        · exact fun _ => rfl
      · exact fun _ => rfl
  flush_some _ _ := rfl
  create_refuses p a s e := by
    simp only [session, openFile]
    split
    · exact fun _ => rfl
    · split
      · exact fun _ => rfl
      · exact nofun
  createDir_refuses p s e := by
    simp only [session, createDir]
    split
    · exact fun _ => rfl
    · split
      · exact fun _ => rfl
      · exact nofun
  removeFile_refuses p s e := by
    simp only [session, removeFile]
    split
    · exact nofun
    · exact fun _ => rfl
    · exact fun _ => rfl
  removeDir_refuses p s e := by
    simp only [session, removeDir]
    split
    · split
      · exact fun _ => rfl
      · exact nofun
    · exact fun _ => rfl
    · exact fun _ => rfl
  rename_refuses src dst s e := by
    simp only [session, rename]
    split
    · split
      · exact nofun
      · split
        · exact fun _ => rfl
        · exact nofun
    · exact fun _ => rfl
  setMetadata_refuses p a s e := by
    simp only [session, setMetadata]
    split
    · split
      · exact nofun
      · exact fun _ => rfl
    · exact fun _ => rfl

/-- A listing has the names that the memory has. -/
lemma readDir_names {p : Str} {s : Served} {entries : List (Str × SftpAttributes)}
    (h : (session.readDir p s).1 = .ok entries) : entries.map Prod.fst = s.memory.names p := by
  simp only [session, readDir] at h
  split at h
  · cases h
    rw [List.map_filterMap]
    conv_rhs => rw [← List.filterMap_some (l := s.memory.names p)]
    refine List.filterMap_congr fun name hname => ?_
    obtain ⟨node, hnode⟩ := Option.ne_none_iff_exists'.mp (Memory.mem_names.mp hname).2
    simp [hnode]
  · cases h
  · cases h

lemma lists : session.Lists view where
  describes p s entries h := by
    simp only [session, readDir] at h
    split at h
    · next hdir =>
        cases h
        refine ⟨hdir, fun e he _ => ?_⟩
        obtain ⟨name, -, hname⟩ := List.mem_filterMap.mp he
        obtain ⟨node, hnode, rfl⟩ := Option.map_eq_some_iff.mp hname
        exact ⟨node, hnode, describes (s.memory.fits _ _ hnode) (s.stamped _ _ hnode)⟩
    · cases h
    · cases h
  names_valid p s entries h e he _ _ := by
    have hmem : e.1 ∈ entries.map Prod.fst := List.mem_map_of_mem he
    rw [readDir_names h] at hmem
    exact (Memory.mem_names.mp hmem).1
  names_nodup p s entries h := by
    rw [readDir_names h]
    exact (List.nodup_dedup _).filter _
  names_complete p s entries h name hvalid hne := by
    rw [readDir_names h]
    exact Memory.mem_names.mpr ⟨hvalid, hne⟩

end Served

end CacheShfs
