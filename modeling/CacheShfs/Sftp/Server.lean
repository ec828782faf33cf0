import CacheShfs.Remote.Memory
import CacheShfs.Sftp.Backend

/-!
# Servers

What is assumed of a session with a server that keeps a tree of files.  `Server` says what a request
does if it is answered, and that a request that fails has done its work or nothing of it, or, for a
write and for a setting of attributes, a part.  A server may answer a read of a file with fewer
bytes than it is asked for, and any request may fail at any time.  `Reliable` is a server that does
not fail by itself, and `SftpSession.Lists` one whose directories have no links in them.

The attributes that a server reports for a path describe what the path leads to.
-/

namespace CacheShfs

open Slice

/-! ## Changes of the tree -/

/-- What a request asks the server to change. -/
inductive Change
  | create (path : RemotePath)
  | createDir (path : RemotePath)
  | removeFile (path : RemotePath)
  | removeDir (path : RemotePath)
  | rename (src dst : RemotePath)
  | set (path : RemotePath) (attributes : SftpAttributes)
  | write (path : RemotePath) (offset : ℕ) (data : Bytes)

/-- Some of the attributes that are to be set. -/
structure SftpAttributes.PartOf (part whole : SftpAttributes) : Prop where
  size : part.size = none ∨ part.size = whole.size
  uid : part.uid = none ∨ part.uid = whole.uid
  gid : part.gid = none ∨ part.gid = whole.gid
  permissions : part.permissions = none ∨ part.permissions = whole.permissions
  times : (part.atime = none ∧ part.mtime = none) ∨
    (part.atime = whole.atime ∧ part.mtime = whole.mtime)

lemma SftpAttributes.PartOf.refl (whole : SftpAttributes) : whole.PartOf whole :=
  ⟨.inr rfl, .inr rfl, .inr rfl, .inr rfl, .inr ⟨rfl, rfl⟩⟩

/-- The bytes of a file after a write.  Without data nothing is sent, and the file is as it was. -/
def written (f : Bytes) (offset : ℕ) (data : Bytes) : Bytes :=
  if data = [] then f else Memory.overwrite f offset data

/-- The node after its attributes have been set: a file has its size, and its time if that is among
them. -/
def SftpAttributes.Sets (attributes : SftpAttributes) : RemoteNode → RemoteNode → Prop
  | .dir, node => node = .dir
  | .file f _, node => ∃ m, node = .file (resize f attributes.size) m ∧
      ∀ mtime, attributes.mtime = some mtime → m = some (mtime.toNat : Int)

namespace Change

/-- The change is made to a tree. -/
def Effect : Change → Tree → Tree → Prop
  | .create path, t, t' => t path.asStr = none ∧
      ∃ m, t' = Function.update t path.asStr (some (.file [] m))
  | .createDir path, t, t' => t path.asStr = none ∧
      t' = Function.update t path.asStr (some .dir)
  | .removeFile path, t, t' => (∃ f m, t path.asStr = some (.file f m)) ∧
      t' = Function.update t path.asStr none
  | .removeDir path, t, t' => t path.asStr = some .dir ∧
      (∀ q, Below path.asStr q → t q = none) ∧ t' = Function.update t path.asStr none
  | .rename src dst, t, t' => (∃ node, t src.asStr = some node) ∧
      ¬ Below src.asStr dst.asStr ∧ (src ≠ dst → ∀ q, Below dst.asStr q → t q = none) ∧
      t' = if src = dst then t else t.rename src.asStr dst.asStr
  | .set path attributes, t, t' => ∃ node node', t path.asStr = some node ∧
      attributes.Sets node node' ∧ t' = Function.update t path.asStr (some node')
  | .write path offset data, t, t' => ∃ f m m', t path.asStr = some (.file f m) ∧
      t' = Function.update t path.asStr (some (.file (written f offset data) m'))

/-- What may become of a tree where a change is tried: nothing, or the change, or, for a write and
for a setting of attributes, a part of it. -/
def Attempt : Change → Tree → Tree → Prop
  | .write path offset data, t, t' =>
      t' = t ∨ ∃ k, (Change.write path offset (data.take k)).Effect t t'
  | .set path attributes, t, t' =>
      t' = t ∨ ∃ part : SftpAttributes, part.PartOf attributes ∧ (Change.set path part).Effect t t'
  | change, t, t' => t' = t ∨ change.Effect t t'

lemma attempt_same (c : Change) (t : Tree) : c.Attempt t t := by
  cases c <;> exact .inl rfl

lemma Effect.attempt {c : Change} {t t' : Tree} (h : c.Effect t t') : c.Attempt t t' := by
  cases c with
  | write path offset data => exact .inr ⟨data.length, by rwa [List.take_length]⟩
  | set path attributes => exact .inr ⟨attributes, .refl attributes, h⟩
  | _ => exact .inr h

/-- The paths that a change names, and, for a rename, those below them. -/
def Touches : Change → Str → Prop
  | .create path, q | .createDir path, q | .removeFile path, q | .removeDir path, q
  | .set path _, q | .write path _ _, q => q = path.asStr
  | .rename src dst, q => (q = src.asStr ∨ Below src.asStr q) ∨ q = dst.asStr ∨ Below dst.asStr q

/-- A change leaves alone what it does not name. -/
lemma Effect.frame {c : Change} {t t' : Tree} (h : c.Effect t t') {q : Str}
    (hq : ¬ c.Touches q) : t' q = t q := by
  cases c with
  | create path =>
      obtain ⟨-, m, rfl⟩ := h
      exact Function.update_of_ne hq _ _
  | createDir path =>
      obtain ⟨-, rfl⟩ := h
      exact Function.update_of_ne hq _ _
  | removeFile path =>
      obtain ⟨-, rfl⟩ := h
      exact Function.update_of_ne hq _ _
  | removeDir path =>
      obtain ⟨-, -, rfl⟩ := h
      exact Function.update_of_ne hq _ _
  | rename src dst =>
      obtain ⟨-, -, -, rfl⟩ := h
      obtain ⟨hsrc, hdst, hbelow⟩ : ¬ (q = src.asStr ∨ Below src.asStr q) ∧
          q ≠ dst.asStr ∧ ¬ Below dst.asStr q := by
        simpa only [Touches, not_or] using hq
      split
      · rfl
      · rw [Tree.rename, if_neg hdst, if_neg hbelow, if_neg hsrc]
  | set path attributes =>
      obtain ⟨node, node', -, -, rfl⟩ := h
      exact Function.update_of_ne hq _ _
  | write path offset data =>
      obtain ⟨f, m, m', -, rfl⟩ := h
      exact Function.update_of_ne hq _ _

lemma Attempt.frame {c : Change} {t t' : Tree} (h : c.Attempt t t') {q : Str}
    (hq : ¬ c.Touches q) : t' q = t q := by
  cases c with
  | write path offset data =>
      rcases h with rfl | ⟨k, h⟩
      · rfl
      · exact h.frame hq
  | set path attributes =>
      rcases h with rfl | ⟨part, -, h⟩
      · rfl
      · exact h.frame hq
  | _ =>
      rcases h with rfl | h
      · rfl
      · exact h.frame hq

/-- A write of nothing. -/
lemma effect_write_nil {path : RemotePath} {offset : ℕ} {t : Tree}
    (h : ∃ f m, t path.asStr = some (.file f m)) : (Change.write path offset []).Effect t t := by
  obtain ⟨f, m, hfile⟩ := h
  exact ⟨f, m, m, hfile, by rw [written, if_pos rfl, ← hfile, Function.update_eq_self]⟩

end Change

/-! ## Servers -/

/-- The file that an open file is, and where it will be read from or written to. -/
structure Cursor where
  path : Str
  position : ℕ

/-- A request makes a change if it succeeds, and has tried to if it fails. -/
def Makes {σ ε α : Type} (view : σ → Tree) (change : Change) (s : σ)
    (answer : Except ε α × σ) : Prop :=
  (∀ a, answer.1 = .ok a → change.Effect (view s) (view answer.2)) ∧
    change.Attempt (view s) (view answer.2)

lemma makes_none {σ ε α : Type} {view : σ → Tree} {change : Change} {s : σ} {e : ε} {s' : σ}
    (h : view s' = view s) : Makes view change s ((.error e, s') : Except ε α × σ) :=
  ⟨nofun, h ▸ change.attempt_same _⟩

lemma makes_effect {σ ε α : Type} {view : σ → Tree} {change : Change} {s : σ}
    {answer : Except ε α × σ} (h : change.Effect (view s) (view answer.2)) :
    Makes view change s answer :=
  ⟨fun _ _ => h, h.attempt⟩

/-- A session with a server that keeps a tree.  `cursor` says where an open file stands. -/
structure Server {σ φ : Type} (S : SftpSession σ φ) (view : σ → Tree)
    (cursor : φ → σ → Option Cursor) : Prop where
  metadata_view : ∀ path s, view (S.metadata path s).2 = view s
  metadata_ok : ∀ (p : RemotePath) s metadata, (S.metadata p.asStr s).1 = .ok metadata →
    ∃ node, view s p.asStr = some node ∧ Describes (S.fileAttributes metadata) node
  readDir_view : ∀ path s, view (S.readDir path s).2 = view s
  read_opens : ∀ (p : RemotePath) s, view (S.openFile p.asStr .read s).2 = view s ∧
    ∀ file, (S.openFile p.asStr .read s).1 = .ok file →
      cursor file (S.openFile p.asStr .read s).2 = some ⟨p.asStr, 0⟩
  /-- Only a file is opened for writing. -/
  write_opens : ∀ (p : RemotePath) s, view (S.openFile p.asStr .write s).2 = view s ∧
    ∀ file, (S.openFile p.asStr .write s).1 = .ok file →
      (∃ f m, view s p.asStr = some (.file f m)) ∧
        cursor file (S.openFile p.asStr .write s).2 = some ⟨p.asStr, 0⟩
  seek_view : ∀ file offset s, view (S.seek file offset s).2 = view s
  seek_ok : ∀ file offset s c, cursor file s = some c → (S.seek file offset s).1 = .ok () →
    cursor file (S.seek file offset s).2 = some { c with position := offset }
  readFile_view : ∀ file size s, view (S.readFile file size s).2 = view s
  /-- A read gives some of the bytes at the cursor, none only at the end, and moves the cursor. -/
  readFile_ok : ∀ file size s c data, cursor file s = some c →
    (S.readFile file size s).1 = .ok data →
      (∃ f m, view s c.path = some (.file f m) ∧
        data <+: slice f c.position (c.position + size) ∧
        (c.position < f.length → 0 < size → data ≠ [])) ∧
      cursor file (S.readFile file size s).2 =
        some { c with position := c.position + data.length }
  /-- Without data nothing is sent. -/
  writeAll_nil : ∀ file s, view (S.writeAll file [] s).2 = view s
  writeAll_makes : ∀ file (p : RemotePath) offset data s, data ≠ [] →
    cursor file s = some ⟨p.asStr, offset⟩ →
      Makes view (.write p offset data) s (S.writeAll file data s)
  flush_view : ∀ file s, view (S.flush file s).2 = view s
  create_makes : ∀ (p : RemotePath) attributes s,
    Makes view (.create p) s (S.openFile p.asStr (.createNew attributes) s)
  createDir_makes : ∀ (p : RemotePath) s, Makes view (.createDir p) s (S.createDir p.asStr s)
  removeFile_makes : ∀ (p : RemotePath) s, Makes view (.removeFile p) s (S.removeFile p.asStr s)
  removeDir_makes : ∀ (p : RemotePath) s, Makes view (.removeDir p) s (S.removeDir p.asStr s)
  rename_makes : ∀ (src dst : RemotePath) s,
    Makes view (.rename src dst) s (S.rename src.asStr dst.asStr s)
  setMetadata_makes : ∀ (p : RemotePath) attributes s,
    Makes view (.set p attributes) s (S.setMetadata p.asStr attributes s)
  cancel_view : ∀ s, view (S.cancel s) = view s
  /-- Files stay within the range of a signed 64-bit offset. -/
  file_size : ∀ s q f m, view s q = some (.file f m) → f.length ≤ 2 ^ 63

/-! ## Servers that do not fail by themselves -/

/-- A request that fails has changed nothing. -/
def Refuses {σ ε α : Type} (view : σ → Tree) (s : σ) (answer : Except ε α × σ) : Prop :=
  ∀ e, answer.1 = .error e → view answer.2 = view s

/-- A server that does not fail by itself: what is there is answered, only files are opened for
reading, and a request that fails has changed nothing. -/
structure Reliable {σ φ : Type} (S : SftpSession σ φ) (view : σ → Tree)
    (cursor : φ → σ → Option Cursor) : Prop extends Server S view cursor where
  in_time : ∀ s, S.timesOut s = false
  metadata_some : ∀ (p : RemotePath) s node, view s p.asStr = some node →
    ∃ metadata, (S.metadata p.asStr s).1 = .ok metadata
  metadata_none : ∀ (p : RemotePath) s, view s p.asStr = none →
    ∃ message, (S.metadata p.asStr s).1 = .error (.status .noSuchFile message)
  readDir_some : ∀ (p : RemotePath) s, view s p.asStr = some .dir →
    ∃ entries, (S.readDir p.asStr s).1 = .ok entries
  read_file : ∀ (p : RemotePath) s f m, view s p.asStr = some (.file f m) →
    ∃ file, (S.openFile p.asStr .read s).1 = .ok file
  read_other : ∀ (p : RemotePath) s, (∀ f m, view s p.asStr ≠ some (.file f m)) →
    ∃ e, (S.openFile p.asStr .read s).1 = .error e
  seek_some : ∀ file offset s c, cursor file s = some c → (S.seek file offset s).1 = .ok ()
  readFile_some : ∀ file size s c f m, cursor file s = some c →
    view s c.path = some (.file f m) → ∃ data, (S.readFile file size s).1 = .ok data
  writeAll_refuses : ∀ file data s c, cursor file s = some c →
    Refuses view s (S.writeAll file data s)
  flush_some : ∀ file s, (S.flush file s).1 = .ok ()
  create_refuses : ∀ (p : RemotePath) attributes s,
    Refuses view s (S.openFile p.asStr (.createNew attributes) s)
  createDir_refuses : ∀ (p : RemotePath) s, Refuses view s (S.createDir p.asStr s)
  removeFile_refuses : ∀ (p : RemotePath) s, Refuses view s (S.removeFile p.asStr s)
  removeDir_refuses : ∀ (p : RemotePath) s, Refuses view s (S.removeDir p.asStr s)
  rename_refuses : ∀ (src dst : RemotePath) s,
    Refuses view s (S.rename src.asStr dst.asStr s)
  setMetadata_refuses : ∀ (p : RemotePath) attributes s,
    Refuses view s (S.setMetadata p.asStr attributes s)

/-- A server that lists each child of a directory once, every name but the dots is a path component,
and what is listed with a name is what the path leads to: there are no links. -/
structure SftpSession.Lists {σ φ : Type} (S : SftpSession σ φ) (view : σ → Tree) : Prop where
  describes : ∀ (p : RemotePath) s entries, (S.readDir p.asStr s).1 = .ok entries →
    view s p.asStr = some .dir ∧ ∀ e ∈ entries, ValidComponent e.1 →
      ∃ node, view s (childKey p.asStr e.1) = some node ∧ Describes (S.fileAttributes e.2) node
  names_valid : ∀ (p : RemotePath) s entries, (S.readDir p.asStr s).1 = .ok entries →
    ∀ e ∈ entries, e.1 ≠ ['.'] → e.1 ≠ ['.', '.'] → ValidComponent e.1
  names_nodup : ∀ (p : RemotePath) s entries, (S.readDir p.asStr s).1 = .ok entries →
    ((entries.map Prod.fst).filter fun n => decide (n ≠ ['.'] ∧ n ≠ ['.', '.'])).Nodup
  names_complete : ∀ (p : RemotePath) s entries, (S.readDir p.asStr s).1 = .ok entries →
    ∀ name, ValidComponent name → view s (childKey p.asStr name) ≠ none →
      name ∈ entries.map Prod.fst

end CacheShfs
