import CacheShfs.Core.Remote
import CacheShfs.Lib.Slice

/-!
# What is assumed of a remote

The remote is a parameter of the model; the results about the cache assume as little of it as
they can, in the named structures of this file.  All of them speak about a `view` of the
remote's state as a tree of files and directories keyed by path strings.

`HonestReads` is the read contract alone: a read of a file answers with a prefix of what was
asked for, possibly short, but not empty while there is something to return.  `TruthfulReads` is
the same of a remote that may fail at any time.  `StatsTree` adds to `HonestReads`
that `stat` describes the tree and changes nothing.

`stat` follows symbolic links, so a link shows in the tree as what it leads to.  `read_dir`
describes the link itself, and a link makes two paths of one file, so that no cache keyed by path
can see that a change through one of them concerns the other.  Two conditions on a single call leave
links out: `ListsAsFound` says that a listing describes what `stat` finds, and `Mutation.Does` that
a call that succeeds has changed its own path (a rename also what lies below its two paths) and no
other.  `Answers` and `Mutates` ask them of every call; `Mutates` also asks that a call that fails
has changed nothing.
-/

namespace CacheShfs

open Slice

/-- A node of the remote tree.  Only what the cache compares is in it: the bytes and the
modification time of a file. -/
inductive RemoteNode
  | dir
  | file (content : Bytes) (modified : Option Int)
  deriving DecidableEq, Repr

/-- The bytes of a file. -/
def RemoteNode.bytes : RemoteNode → Option Bytes
  | .dir => none
  | .file content _ => some content

def RemoteNode.kind : RemoteNode → FileKind
  | .dir => .directory
  | .file _ _ => .file

/-- A remote tree, keyed by path strings. -/
abbrev Tree := Str → Option RemoteNode

/-- The attributes a remote reports for a node. -/
def Describes (attrs : FileAttributes) : RemoteNode → Prop
  | .dir => attrs.kind = .directory
  | .file content modified =>
      attrs.kind = .file ∧ attrs.size.toNat = content.length ∧
        attrs.modifiedUnixSeconds = modified

instance (attrs : FileAttributes) (node : RemoteNode) : Decidable (Describes attrs node) :=
  match node with
  | .dir => inferInstanceAs (Decidable (_ = _))
  | .file _ _ => inferInstanceAs (Decidable (_ ∧ _ ∧ _))

lemma Describes.kind_eq {attrs : FileAttributes} {node : RemoteNode} (h : Describes attrs node) :
    attrs.kind = node.kind := by
  cases node with
  | dir => exact h
  | file content modified => exact h.1

variable {ρ : Type}

/-- The read contract: reading a file returns a prefix of the requested range, which may be
short but is not empty inside the file, and changes nothing. -/
structure HonestReads (R : RemoteFilesystem ρ) (view : ρ → Tree) : Prop where
  view_read : ∀ p o n r, view (R.read p o n r).2 = view r
  read_file : ∀ p o n r f m, view r p.asStr = some (.file f m) →
    ∃ d, (R.read p o n r).1 = .ok d ∧ d <+: slice f o (o + n) ∧ (o < f.length → 0 < n → d ≠ [])

/-- The remote answers from its tree: `stat` describes the node at a path or reports that there
is none, and neither `stat` nor `read_dir` changes anything. -/
structure StatsTree (R : RemoteFilesystem ρ) (view : ρ → Tree) : Prop
    extends HonestReads R view where
  view_stat : ∀ p r, view (R.stat p r).2 = view r
  view_readDir : ∀ p r, view (R.readDir p r).2 = view r
  stat_some : ∀ p r node, view r p.asStr = some node →
    ∃ attrs, (R.stat p r).1 = .ok attrs ∧ Describes attrs node
  stat_none : ∀ p r, view r p.asStr = none → (R.stat p r).1 = .error .notFound
  read_other : ∀ p o n r, (∀ f m, view r p.asStr ≠ some (.file f m)) →
    ∃ e, (R.read p o n r).1 = .error e
  /-- A reachable server: no call fails for want of a connection. -/
  readDir_reachable : ∀ p r message, (R.readDir p r).1 ≠ .error (.unavailable message)

/-- A listing of a path, if there is one, describes what `stat` finds at the names. -/
def ListsAsFound (R : RemoteFilesystem ρ) (view : ρ → Tree) (p : RemotePath) (r : ρ) : Prop :=
  ∀ entries, (R.readDir p r).1 = .ok entries → view r p.asStr = some .dir ∧
    ∀ e ∈ entries, ValidComponent e.name →
      ∃ node, view r (childKey p.asStr e.name) = some node ∧ Describes e.attributes node

/-- `read_dir` answers from the tree too: it describes the children it names. -/
structure Answers (R : RemoteFilesystem ρ) (view : ρ → Tree) : Prop extends StatsTree R view where
  lists : ∀ p r, ListsAsFound R view p r

/-- The tree after `src` has been moved to `dst` with everything below it. -/
def Tree.rename (t : Tree) (src dst : Str) : Tree := fun q =>
  if q = dst then t src
  else if Below dst q then t (src ++ q.drop dst.length)
  else if q = src ∨ Below src q then none
  else t q

/-- The bytes of a file after its size has been set. -/
def resize (f : Bytes) : Option UInt64 → Bytes
  | none => f
  | some n => f.take n.toNat ++ List.replicate (n.toNat - f.length) 0

/-- The node after `setattr`: a file is resized, its time may change, and a directory stays
one. -/
def SetTo (attributes : SetAttributes) : RemoteNode → RemoteNode → Prop
  | .dir, node => node = .dir
  | .file f _, node => ∃ m, node = .file (resize f attributes.size) m

/-- A call that changes the remote. -/
inductive Mutation
  | write (path : RemotePath) (offset : UInt64) (data : Bytes)
  | create (path : RemotePath) (mode : UInt32)
  | mkdir (path : RemotePath) (mode : UInt32)
  | unlink (path : RemotePath)
  | rmdir (path : RemotePath)
  | rename (src dst : RemotePath)
  | setattr (path : RemotePath) (attributes : SetAttributes)

namespace Mutation

/-- A call, with what it answers on success forgotten. -/
def run (R : RemoteFilesystem ρ) (r : ρ) : Mutation → Except Error Unit × ρ
  | .write path offset data => ((R.write path offset data r).1.map fun _ => (),
      (R.write path offset data r).2)
  | .create path mode => ((R.create path mode r).1.map fun _ => (), (R.create path mode r).2)
  | .mkdir path mode => ((R.mkdir path mode r).1.map fun _ => (), (R.mkdir path mode r).2)
  | .unlink path => R.unlink path r
  | .rmdir path => R.rmdir path r
  | .rename src dst => R.rename src dst r
  | .setattr path attributes => ((R.setattr path attributes r).1.map fun _ => (),
      (R.setattr path attributes r).2)

/-- If the call succeeds, it has found what it needs, it has changed the tree at its own path and
nowhere else, and its answer describes what is there now.  A rename moves something that exists, not
below itself, and replaces no directory that has something in it. -/
def Does (R : RemoteFilesystem ρ) (view : ρ → Tree) (r : ρ) : Mutation → Prop
  | .write p o d => ∀ n, (R.write p o d r).1 = .ok n → ∃ f m f' m',
      view r p.asStr = some (.file f m) ∧
        view (R.write p o d r).2 = Function.update (view r) p.asStr (some (.file f' m'))
  | .create p mode => ∀ attrs, (R.create p mode r).1 = .ok attrs → ∃ f m,
      view r p.asStr = none ∧ Describes attrs (.file f m) ∧
        view (R.create p mode r).2 = Function.update (view r) p.asStr (some (.file f m))
  | .mkdir p mode => ∀ attrs, (R.mkdir p mode r).1 = .ok attrs →
      view r p.asStr = none ∧ Describes attrs .dir ∧
        view (R.mkdir p mode r).2 = Function.update (view r) p.asStr (some .dir)
  | .unlink p => (R.unlink p r).1 = .ok () → ∃ f m, view r p.asStr = some (.file f m) ∧
      view (R.unlink p r).2 = Function.update (view r) p.asStr none
  | .rmdir p => (R.rmdir p r).1 = .ok () → view r p.asStr = some .dir ∧
      (∀ q, Below p.asStr q → view r q = none) ∧
        view (R.rmdir p r).2 = Function.update (view r) p.asStr none
  | .rename src dst => (R.rename src dst r).1 = .ok () →
      (∃ node, view r src.asStr = some node) ∧ ¬ Below src.asStr dst.asStr ∧
        (src ≠ dst → ∀ q, Below dst.asStr q → view r q = none) ∧
        view (R.rename src dst r).2 =
          if src = dst then view r else (view r).rename src.asStr dst.asStr
  | .setattr p a => ∀ attrs, (R.setattr p a r).1 = .ok attrs → ∃ node node',
      view r p.asStr = some node ∧ SetTo a node node' ∧ Describes attrs node' ∧
        view (R.setattr p a r).2 = Function.update (view r) p.asStr (some node')

/-- A call fails as it does with its answer on success forgotten. -/
lemma map_eq_error {α : Type} {answer : Except Error α} {e : Error} :
    (answer.map fun _ => ()) = .error e ↔ answer = .error e := by
  cases answer <;> simp [Except.map]

end Mutation

/-- Files stay within the range of a signed 64-bit offset. -/
def FilesFit (view : ρ → Tree) : Prop :=
  ∀ r q f m, view r q = some (.file f m) → f.length ≤ 2 ^ 63

/-- How the mutating calls of a mount change the tree. -/
structure Mutates (R : RemoteFilesystem ρ) (view : ρ → Tree) : Prop where
  does : ∀ (m : Mutation) r, m.Does R view r
  refuses : ∀ (m : Mutation) r e, (m.run R r).1 = .error e → view (m.run R r).2 = view r
  file_size : FilesFit view

/-- How files are written: a file stays a file, whether the write succeeds or not. -/
structure WritesFiles (R : RemoteFilesystem ρ) (view : ρ → Tree) : Prop where
  write_file : ∀ p o d r f m, view r p.asStr = some (.file f m) →
    ∃ f' m', view (R.write p o d r).2 p.asStr = some (.file f' m')
  file_size : FilesFit view

/-- How files are deleted: an `unlink` that succeeds leaves nothing at its path, and neither
`unlink` nor `write` makes anything, whether it succeeds or not. -/
structure Deletes (R : RemoteFilesystem ρ) (view : ρ → Tree) : Prop where
  unlink_ok : ∀ p r, (R.unlink p r).1 = .ok () → view (R.unlink p r).2 p.asStr = none
  unlink_none : ∀ p r q, view r q = none → view (R.unlink p r).2 q = none
  write_none : ∀ p o d r q, view r q = none → view (R.write p o d r).2 q = none

/-- The read contract of a remote whose reads may fail at any time: a read that answers returns a
prefix of the requested range of the file now at the path, not empty inside the file. -/
structure TruthfulReads (R : RemoteFilesystem ρ) (view : ρ → Tree) : Prop where
  view_read : ∀ p o n r, view (R.read p o n r).2 = view r
  read_ok : ∀ p o n r d, (R.read p o n r).1 = .ok d → ∃ f m,
    view r p.asStr = some (.file f m) ∧ d <+: slice f o (o + n) ∧ (o < f.length → 0 < n → d ≠ [])
  file_size : FilesFit view

namespace Mutates

variable {R : RemoteFilesystem ρ} {view : ρ → Tree}

lemma writesFiles (hM : Mutates R view) : WritesFiles R view where
  write_file p o d r f m hfile := by
    cases hanswer : (R.write p o d r).1 with
    | ok n =>
        obtain ⟨_, _, f', m', -, hview⟩ := hM.does (.write p o d) r n hanswer
        exact ⟨f', m', by rw [hview, Function.update_self]⟩
    | error e =>
        have hsame := hM.refuses (.write p o d) r e (Mutation.map_eq_error.mpr hanswer)
        exact ⟨f, m, (congrFun hsame _).trans hfile⟩
  file_size := hM.file_size

lemma deletes (hM : Mutates R view) : Deletes R view where
  unlink_ok p r hok := by
    obtain ⟨_, _, -, hview⟩ := hM.does (.unlink p) r hok
    rw [hview, Function.update_self]
  unlink_none p r q hnone := by
    cases hanswer : (R.unlink p r).1 with
    | ok _ =>
        obtain ⟨_, _, -, hview⟩ := hM.does (.unlink p) r hanswer
        rw [hview, Function.update_apply, hnone, ite_self]
    | error e => exact (congrFun (hM.refuses (.unlink p) r e hanswer) q).trans hnone
  write_none p o d r q hnone := by
    cases hanswer : (R.write p o d r).1 with
    | ok n =>
        obtain ⟨_, _, _, _, hfile, hview⟩ := hM.does (.write p o d) r n hanswer
        have hne : q ≠ p.asStr := by
          rintro rfl
          rw [hnone] at hfile
          cases hfile
        rw [hview, Function.update_of_ne hne]
        exact hnone
    | error e =>
        have hsame := hM.refuses (.write p o d) r e (Mutation.map_eq_error.mpr hanswer)
        exact (congrFun hsame q).trans hnone

end Mutates

lemma StatsTree.truthful {R : RemoteFilesystem ρ} {view : ρ → Tree} (hR : StatsTree R view)
    (hsize : FilesFit view) :
    TruthfulReads R view where
  view_read := hR.view_read
  read_ok p o n r d hd := by
    by_cases hfile : ∃ f m, view r p.asStr = some (.file f m)
    · obtain ⟨f, m, hview⟩ := hfile
      obtain ⟨d', hd', hinitial⟩ := hR.read_file p o n r f m hview
      obtain rfl : d' = d := Except.ok.inj (hd'.symm.trans hd)
      exact ⟨f, m, hview, hinitial⟩
    · obtain ⟨e, he⟩ := hR.read_other p o n r fun f m hview => hfile ⟨f, m, hview⟩
      cases he.symm.trans hd
  file_size := hsize

/-- All names in listings are path components, the dots apart. -/
def NamesValid (R : RemoteFilesystem ρ) : Prop :=
  ∀ p r entries, (R.readDir p r).1 = .ok entries → ∀ e ∈ entries,
    e.name ≠ ['.'] → e.name ≠ ['.', '.'] → ValidComponent e.name

/-- Every listing names each child of the directory once. -/
structure ListsChildren (R : RemoteFilesystem ρ) (view : ρ → Tree) : Prop where
  names_valid : NamesValid R
  names_nodup : ∀ p r entries, (R.readDir p r).1 = .ok entries →
    ((entries.map RemoteDirectoryEntry.name).filter
      fun n => decide (n ≠ ['.'] ∧ n ≠ ['.', '.'])).Nodup
  names_complete : ∀ p r entries, (R.readDir p r).1 = .ok entries → ∀ name,
    ValidComponent name → view r (childKey p.asStr name) ≠ none →
      name ∈ entries.map RemoteDirectoryEntry.name

end CacheShfs
