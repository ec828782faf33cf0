import CacheShfs.Lib.Paging
import CacheShfs.Vfs.Run

/-!
# Reading a directory through FUSE

`LinuxFilesystem::readdir` of `crates/cacheshfs-linux/src/fs.rs`.  The kernel reads a directory in
pages: each request names the offset that came with the last entry it got, and the reply is a
buffer that takes some entries.  `opendir` keeps nothing, so each page asks the mount for the
whole listing again and skips by position.

The buffer is `fuser`'s: `add` takes an entry, or says that the buffer is full.  How many entries
it takes depends on their names, so a request comes with the number it has room for, which may be
any number.

Between two pages the mount can do anything.  A name that stays in the directory is returned
exactly once, if and only if it moves equally often from ahead of the position to behind it and
back (`enumerated_once_iff`): removing what was returned before moves the rest back, and the next
page misses names (`removing_skips_names`).
-/

namespace CacheShfs

open Machine

/-- `FileType`, as far as `file_type` uses it. -/
inductive FileType
  | regularFile
  | directory
  | symlink
  deriving DecidableEq, Repr

/-- `file_type`. -/
def fileType : FileKind → FileType
  | .file => .regularFile
  | .directory => .directory
  | .symlink => .symlink

/-- `Errno`, as far as `errno` uses it. -/
inductive Errno
  | noent
  | exist
  | acces
  | inval
  | nosys
  | io
  deriving DecidableEq, Repr

/-- `errno`. -/
def errno : Error → Errno
  | .notFound => .noent
  | .alreadyExists => .exist
  | .permissionDenied => .acces
  | .invalidInput _ => .inval
  | .unsupportedOperation _ | .unsupportedPlatform _ => .nosys
  | .unavailable _ | .mountBackend _ | .remoteBackend _ => .io

/-- One entry of a reply to `readdir`. -/
structure ReplyEntry where
  ino : NodeId
  offset : ℕ
  kind : FileType
  name : Str
  deriving DecidableEq, Repr

/-- `ReplyDirectory`: the buffer of a reply, with the number of entries it has room for. -/
structure ReplyDirectory where
  capacity : ℕ
  entries : List ReplyEntry
  deriving DecidableEq, Repr

namespace ReplyDirectory

/-- An empty buffer. -/
def empty (capacity : ℕ) : ReplyDirectory := ⟨capacity, []⟩

/-- `ReplyDirectory::add`: an entry is taken, or the buffer is full (`true`). -/
def add (ino : NodeId) (offset : ℕ) (kind : FileType) (name : Str) (reply : ReplyDirectory) :
    Bool × ReplyDirectory :=
  if reply.entries.length < reply.capacity then
    (false, { reply with entries := reply.entries ++ [⟨ino, offset, kind, name⟩] })
  else (true, reply)

/-- The names in the buffer. -/
def names (reply : ReplyDirectory) : List Str := reply.entries.map ReplyEntry.name

/-- The offset the kernel continues at: that of the last entry, or the one it has asked with. -/
def nextOffset (offset : ℕ) (reply : ReplyDirectory) : ℕ :=
  (reply.entries.getLast?.map ReplyEntry.offset).getD offset

end ReplyDirectory

namespace LinuxFilesystem

variable {ρ : Type} (R : RemoteFilesystem ρ)

/-- The loop of `readdir` over the entries with their positions. -/
def addEntries : List (DirectoryEntry × ℕ) → ReplyDirectory → ReplyDirectory
  | [], reply => reply
  | (entry, index) :: rest, reply =>
      match reply.add entry.metadata.node (index + 1) (fileType entry.metadata.attributes.kind)
        entry.name with
      | (true, reply) => reply
      | (false, reply) => addEntries rest reply

/-- `LinuxFilesystem::readdir`. -/
def readdir (ino : NodeId) (offset : ℕ) (reply : ReplyDirectory) (w : World ρ) :
    Except Errno ReplyDirectory × World ρ :=
  match w.readdir R ino with
  | (.error error, w) => (.error (errno error), w)
  | (.ok entries, w) => (.ok (addEntries (entries.zipIdx.drop offset) reply), w)

/-! ## One page -/

/-- What the loop adds for an entry and its position. -/
def replyEntry (e : DirectoryEntry × ℕ) : ReplyEntry :=
  ⟨e.1.metadata.node, e.2 + 1, fileType e.1.metadata.attributes.kind, e.1.name⟩

/-- The loop fills the room that is left. -/
lemma addEntries_entries (entries : List (DirectoryEntry × ℕ)) (reply : ReplyDirectory) :
    (addEntries entries reply).entries = reply.entries ++
      (entries.take (reply.capacity - reply.entries.length)).map replyEntry := by
  induction entries generalizing reply with
  | nil => simp [addEntries]
  | cons e rest ih =>
      obtain ⟨entry, index⟩ := e
      by_cases hroom : reply.entries.length < reply.capacity
      · have hadd : reply.add entry.metadata.node (index + 1)
            (fileType entry.metadata.attributes.kind) entry.name =
            (false, { reply with entries := reply.entries ++ [replyEntry (entry, index)] }) :=
          if_pos hroom
        have hsucc : reply.capacity - reply.entries.length =
            reply.capacity - (reply.entries.length + 1) + 1 := by omega
        simp only [addEntries, hadd]
        rw [ih, hsucc, List.take_succ_cons, List.map_cons, List.append_assoc, List.length_append,
          List.length_singleton, List.singleton_append]
      · have hadd : reply.add entry.metadata.node (index + 1)
            (fileType entry.metadata.attributes.kind) entry.name = (true, reply) := if_neg hroom
        have hzero : reply.capacity - reply.entries.length = 0 := by omega
        simp only [addEntries, hadd]
        rw [hzero, List.take_zero, List.map_nil, List.append_nil]

/-- The listing that the mount has for a page, as names. -/
def listing (ino : NodeId) (w : World ρ) : List Str :=
  match (w.readdir R ino).1 with
  | .ok entries => entries.map DirectoryEntry.name
  | .error _ => []

variable {R} {ino : NodeId} {offset capacity : ℕ} {w : World ρ} {reply : ReplyDirectory}

/-- The last entry of a page has the position after it. -/
lemma getLast?_offset (entries : List DirectoryEntry) (offset capacity : ℕ) :
    ((((entries.zipIdx.drop offset).take capacity).map replyEntry).getLast?.map
        ReplyEntry.offset).getD offset =
      offset + ((entries.zipIdx.drop offset).take capacity).length := by
  generalize hpage : (entries.zipIdx.drop offset).take capacity = page
  rw [List.getLast?_map, List.getLast?_eq_getElem?]
  cases hlen : page.length with
  | zero => simp [List.length_eq_zero_iff.mp hlen]
  | succ n =>
      have hlt : n < page.length := by omega
      have hlast : page[n]? = some (page[n]) := List.getElem?_eq_getElem hlt
      have hindex : (page[n]).2 = offset + n := by
        subst hpage
        simp
      rw [Nat.add_sub_cancel, hlast]
      simp only [Option.map_some, Option.getD_some, replyEntry, hindex]
      omega

/-- A page is a page of the listing, and the offset of its last entry is the next position. -/
lemma readdir_page (h : (readdir R ino offset (.empty capacity) w).1 = .ok reply) :
    reply.names = Paging.page offset ⟨listing R ino w, capacity⟩ ∧
      reply.nextOffset offset =
        offset + (Paging.page offset ⟨listing R ino w, capacity⟩).length := by
  unfold readdir at h
  unfold listing
  rcases hread : w.readdir R ino with ⟨error | entries, w'⟩
  · rw [hread] at h
    cases h
  · rw [hread] at h
    obtain rfl := Except.ok.inj h
    have hentries := addEntries_entries (entries.zipIdx.drop offset) (.empty capacity)
    simp only [ReplyDirectory.empty, List.nil_append, List.length_nil, Nat.sub_zero] at hentries
    have hpage : Paging.page offset ⟨entries.map DirectoryEntry.name, capacity⟩ =
        (((entries.zipIdx.drop offset).take capacity).map replyEntry).map ReplyEntry.name := by
      have hname : ReplyEntry.name ∘ replyEntry = DirectoryEntry.name ∘ Prod.fst := rfl
      rw [List.map_map, hname, ← List.map_map, List.map_take, List.map_drop, List.zipIdx_map_fst,
        Paging.page, List.map_take, List.map_drop]
    rw [ReplyDirectory.names, ReplyDirectory.nextOffset, ReplyDirectory.empty, hentries, hpage,
      getLast?_offset, List.length_map, List.length_map]
    exact ⟨rfl, rfl⟩

/-! ## A whole enumeration -/

/-- A directory that is being read: the mount, the position and the names returned so far, and (as
history) the listing and the room of every page. -/
structure Enumeration (ρ : Type) where
  world : World ρ
  offset : ℕ
  names : List Str
  pages : List (Paging.Request Str)

/-- The next page is asked for, or something else happens to the mount. -/
inductive Move (ρ : Type)
  | page (capacity : ℕ)
  | event (e : Event ρ)

namespace Enumeration

/-- `opendir`: nothing has been returned. -/
def opendir (w : World ρ) : Enumeration ρ := ⟨w, 0, [], []⟩

/-- A page continues at the last offset returned; a page that fails is asked for again. -/
def step (R : RemoteFilesystem ρ) (ino : NodeId) (x : Enumeration ρ) : Move ρ → Enumeration ρ
  | .page capacity =>
      match readdir R ino x.offset (.empty capacity) x.world with
      | (.error _, w) => { x with world := w }
      | (.ok reply, w) =>
          ⟨w, reply.nextOffset x.offset, x.names ++ reply.names,
            x.pages ++ [⟨listing R ino x.world, capacity⟩]⟩
  | .event e => { x with world := x.world.step R e }

/-- The kernel has read the pages of the history. -/
def Reads (x : Enumeration ρ) : Prop :=
  run Paging.Reader.request .start x.pages = ⟨x.offset, x.names⟩

lemma step_page {x : Enumeration ρ}
    (h : (readdir R ino x.offset (.empty capacity) x.world).1 = .ok reply) :
    (x.step R ino (.page capacity)).pages = x.pages ++ [⟨listing R ino x.world, capacity⟩] ∧
      (x.step R ino (.page capacity)).offset = reply.nextOffset x.offset ∧
      (x.step R ino (.page capacity)).names = x.names ++ reply.names := by
  rcases hread : readdir R ino x.offset (.empty capacity) x.world with ⟨answer, w'⟩
  rw [hread] at h
  obtain rfl : answer = .ok reply := h
  simp only [step, hread, and_self]

lemma reads_step (x : Enumeration ρ) (m : Move ρ) (h : x.Reads) : (x.step R ino m).Reads := by
  cases m with
  | event e => exact h
  | page capacity =>
      rcases hread : (readdir R ino x.offset (.empty capacity) x.world).1 with error | reply
      · have hsame : x.step R ino (.page capacity) =
            { x with world := (readdir R ino x.offset (.empty capacity) x.world).2 } := by
          rcases hread' : readdir R ino x.offset (.empty capacity) x.world with ⟨answer, w'⟩
          rw [hread'] at hread
          obtain rfl : answer = .error error := hread
          simp only [step, hread']
        rw [hsame]
        exact h
      · obtain ⟨hpages, hoffset, hnames⟩ := step_page hread
        obtain ⟨hpage, hnext⟩ := readdir_page hread
        have hreads : run Paging.Reader.request .start x.pages = ⟨x.offset, x.names⟩ := h
        unfold Reads
        rw [hpages, hoffset, hnames, run_append, hreads, hnext, hpage]
        rfl

/-- **A name is returned exactly once if it crosses the position equally often in both
directions.**  The directory is read in pages of any sizes, with anything between them, until a
page that has room is empty.  A name that is in the listing at every page has then been returned
exactly once, if and only if it has moved as often from ahead of the position to behind it, from
one page to the next, as from behind it to ahead. -/
theorem enumerated_once_iff (w : World ρ) (ms : List (Move ρ)) (hroom : 0 < capacity)
    (hend : (readdir R ino (run (step R ino) (opendir w) ms).offset (.empty capacity)
      (run (step R ino) (opendir w) ms).world).1 = .ok reply) (hempty : reply.entries = [])
    {name : Str} (hpresent : ∀ page ∈ (run (step R ino) (opendir w) (ms ++ [.page capacity])).pages,
      page.items.count name = 1) :
    (run (step R ino) (opendir w) ms).names.count name = 1 ↔
      Paging.overtaken name 0
        (run (step R ino) (opendir w) (ms ++ [.page capacity])).pages = 0 := by
  have hstart : (opendir w).Reads := rfl
  have hreads : (run (step R ino) (opendir w) ms).Reads := invariant_of_step reads_step hstart ms
  rw [run_append, run_cons, run_nil] at hpresent ⊢
  generalize run (step R ino) (opendir w) ms = x at *
  rw [(step_page hend).1] at hpresent ⊢
  have hreads : run Paging.Reader.request .start x.pages = ⟨x.offset, x.names⟩ := hreads
  have hnames : reply.names = [] := by rw [ReplyDirectory.names, hempty, List.map_nil]
  rw [(readdir_page hend).1] at hnames
  have honce := Paging.seen_once_iff hroom (by rw [hreads]; exact hnames) hpresent
  rwa [hreads] at honce

/-! A directory with three files, which are read and removed one by one. -/

def threeFiles : Memory :=
  (World.sampleTree.put ['/', 'b'] (.file [] none) RemoteNode.empty_fits).put ['/', 'c']
    (.file [] none) RemoteNode.empty_fits

/-- The enumeration after some moves. -/
def readThree (ms : List (Move Memory)) : Enumeration Memory :=
  run (step Memory.filesystem .root) (opendir (World.mount threeFiles 10)) ms

/-- `c` is returned and removed, and the next page starts behind `b`. -/
def removeRead : List (Move Memory) :=
  [.page 1, .event (.call (.unlink .root ['c'])), .page 1]

/-- Every listing has `b`, which is never returned. -/
theorem removing_skips_names :
    (readdir Memory.filesystem .root (readThree removeRead).offset (.empty 1)
        (readThree removeRead).world).1 = .ok (.empty 1) ∧
      (∀ page ∈ (readThree (removeRead ++ [.page 1])).pages, page.items.count ['b'] = 1) ∧
      (readThree removeRead).names.count ['b'] = 0 := by
  decide

/-- Read without being changed, the directory shows `b` once. -/
theorem enumerated_once_iff_unchanged :
    (readThree [.page 2, .page 2]).names.count ['b'] = 1 := by
  have hend : (readdir Memory.filesystem .root (readThree [.page 2, .page 2]).offset (.empty 1)
      (readThree [.page 2, .page 2]).world).1 = .ok (.empty 1) := by decide
  exact (enumerated_once_iff (World.mount threeFiles 10) [.page 2, .page 2] Nat.one_pos hend rfl
    (by decide)).mpr (by decide)

end Enumeration

end LinuxFilesystem

end CacheShfs
