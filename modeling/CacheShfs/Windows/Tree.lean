import CacheShfs.Windows.Path
import Mathlib.Data.List.Nodup

/-!
# A tree in memory

The tests of `path.rs` resolve paths in a fixed tree, whose `readdir` answers for every node.  Here
is such a tree with the operations that change it.  Names differ by case, a new entry needs a name
that its directory does not have, and a renaming replaces what has the new name.  It shows that what
the results about the adapter ask of a filesystem can be had.
-/

namespace CacheShfs

namespace Windows

/-- Entries, each with the directory that it is in. -/
abbrev Tree := List (NodeId × DirectoryEntry)

namespace Tree

def attributes (kind : FileKind) (mode : UInt32) : FileAttributes where
  kind := kind
  size := 0
  mode := mode
  uid := 0
  gid := 0
  modifiedUnixSeconds := none
  accessedUnixSeconds := none
  changedUnixSeconds := none

def listing (parent : NodeId) (t : Tree) : List DirectoryEntry :=
  (t.filter (·.1 = parent)).map (·.2)

def lookup (parent : NodeId) (name : Str) (t : Tree) : Except Error FileMetadata :=
  match (listing parent t).find? (·.name = name) with
  | some entry => .ok entry.metadata
  | none => .error .notFound

def getattr (node : NodeId) (t : Tree) : Except Error FileMetadata :=
  if node = .root then .ok ⟨.root, attributes .directory 0o755⟩
  else
    match t.find? (·.2.metadata.node = node) with
    | some (_, entry) => .ok entry.metadata
    | none => .error .notFound

/-- A node that no entry has. -/
def nextNode (t : Tree) : NodeId := ⟨(t.map (·.2.metadata.node.val)).foldr max 1 + 1⟩

def insert (parent : NodeId) (name : Str) (attrs : FileAttributes) (t : Tree) :
    Except Error FileMetadata × Tree :=
  if ∃ entry ∈ listing parent t, entry.name = name then (.error .alreadyExists, t)
  else (.ok ⟨nextNode t, attrs⟩, t ++ [(parent, ⟨name, ⟨nextNode t, attrs⟩⟩)])

def remove (parent : NodeId) (name : Str) (t : Tree) : Tree :=
  t.filter fun e => ¬(e.1 = parent ∧ e.2.name = name)

def delete (parent : NodeId) (name : Str) (t : Tree) : Except Error Unit × Tree :=
  if ∃ entry ∈ listing parent t, entry.name = name then (.ok (), remove parent name t)
  else (.error .notFound, t)

def rename (oldParent : NodeId) (oldName : Str) (newParent : NodeId) (newName : Str) (t : Tree) :
    Except Error Unit × Tree :=
  match lookup oldParent oldName t with
  | .error e => (.error e, t)
  | .ok metadata =>
      (.ok (), remove newParent newName (remove oldParent oldName t) ++
        [(newParent, ⟨newName, metadata⟩)])

def create (parent : NodeId) (name : Str) (mode : UInt32) (t : Tree) :
    Except Error CreatedFile × Tree :=
  match insert parent name (attributes .file mode) t with
  | (.error e, t) => (.error e, t)
  | (.ok metadata, t) => (.ok ⟨metadata, ⟨metadata.node.val⟩⟩, t)

/-- The tree as a filesystem. -/
def vfs : VirtualFilesystem Tree where
  lookup t parent name := lookup parent name t
  getattr t node := getattr node t
  readdir t node := .ok (listing node t)
  openFile node _ t := (.ok ⟨node.val⟩, t)
  create parent name mode _ t := create parent name mode t
  mkdir parent name mode t := insert parent name (attributes .directory mode) t
  unlink := delete
  rmdir := delete
  rename := rename

/-! ## Listings -/

lemma mem_listing {parent : NodeId} {entry : DirectoryEntry} {t : Tree} :
    entry ∈ listing parent t ↔ (parent, entry) ∈ t := by
  constructor
  · intro h
    obtain ⟨⟨p, e⟩, hfilter, rfl⟩ := List.mem_map.mp h
    obtain ⟨hmem, hparent⟩ := List.mem_filter.mp hfilter
    obtain rfl : p = parent := by simpa using hparent
    exact hmem
  · intro h
    exact List.mem_map.mpr ⟨(parent, entry), List.mem_filter.mpr ⟨h, by simp⟩, rfl⟩

lemma lookup_ok {parent : NodeId} {name : Str} {metadata : FileMetadata} {t : Tree}
    (h : lookup parent name t = .ok metadata) : ⟨name, metadata⟩ ∈ listing parent t := by
  unfold lookup at h
  cases hfind : (listing parent t).find? (·.name = name) with
  | none => simp [hfind] at h
  | some entry =>
      have hname : entry.name = name := by simpa using List.find?_some hfind
      have hmetadata : entry.metadata = metadata := by simpa [hfind] using h
      subst hname hmetadata
      exact List.mem_of_find?_eq_some hfind

lemma lookup_error {parent : NodeId} {name : Str} {e : Error} {t : Tree}
    (h : lookup parent name t = .error e) : ∀ entry ∈ listing parent t, entry.name ≠ name := by
  unfold lookup at h
  cases hfind : (listing parent t).find? (·.name = name) with
  | none => simpa using hfind
  | some entry => simp [hfind] at h

/-- Where no directory has a name twice, lookups find what is listed. -/
lemma listed {t : Tree} (hnodup : (t.map fun e => (e.1, e.2.name)).Nodup)
    (hnames : ∀ e ∈ t, ∀ c ∈ e.2.name, isSeparator c = false) : Listed vfs t where
  lookup_iff := by
    intro parent name metadata
    constructor
    · intro h
      exact ⟨listing parent t, rfl, lookup_ok h⟩
    · rintro ⟨entries, hentries, hmem⟩
      obtain rfl : listing parent t = entries := Except.ok.inj hentries
      change lookup parent name t = .ok metadata
      cases hlookup : lookup parent name t with
      | error e => exact absurd rfl (lookup_error hlookup _ hmem)
      | ok found =>
          have heq := List.inj_on_of_nodup_map hnodup (mem_listing.mp (lookup_ok hlookup))
            (mem_listing.mp hmem) rfl
          simp_all
  no_separator := by
    intro parent entries entry hentries hmem
    obtain rfl : listing parent t = entries := Except.ok.inj hentries
    exact hnames _ (mem_listing.mp hmem)

end Tree

end Windows

end CacheShfs
