import CacheShfs.Sftp.Served

/-!
# The transport over a server

What the transport makes of a server.

* `reads_whole`: a read of the transport is never short, however the server cuts its answers.
* `calls_framed`: a call that succeeds has made exactly its change, and one that fails has left
  everything alone that it does not name.
* `backend_contract`: over a server that does not fail by itself and has no links, the transport
  meets what the cache assumes of a remote.
-/

namespace CacheShfs

open Slice

namespace SftpSession

variable {σ φ : Type} {S : SftpSession σ φ} {view : σ → Tree} {cursor : φ → σ → Option Cursor}

/-! ## Methods, request by request -/

/-- The rule of methods: a method ends with its first request that fails, or goes on after it. -/
lemma bind_ends {α β : Type} {Q : Except Error β × σ → Prop} {m : Method σ α}
    {f : α → Method σ β} {s : σ} (herror : ∀ e s', m s = (.error e, s') → Q (.error e, s'))
    (hok : ∀ a s', m s = (.ok a, s') → Q (f a s')) : Q ((m >>= f) s) := by
  simp only [bind, ExceptT.bind, ExceptT.mk, StateT.bind, ExceptT.bindCont]
  cases h : m s with
  | mk answer s' =>
      cases answer with
      | error e => exact herror e s' h
      | ok a => exact hok a s' h

lemma bind_mapError {ε α β : Type} {Q : Except Error β × σ → Prop} (map : ε → Error)
    {f : σ → Except ε α × σ} {g : α → Method σ β} {s : σ}
    (herror : ∀ e, (f s).1 = .error e → Q (.error (map e), (f s).2))
    (hok : ∀ a, (f s).1 = .ok a → Q (g a (f s).2)) :
    Q (((fun s => ((f s).1.mapError map, (f s).2) : Method σ α) >>= g) s) := by
  apply bind_ends
  · intro e s' h
    cases hanswer : (f s).1 with
    | error e' =>
        simp only [hanswer, Except.mapError] at h
        cases h
        exact herror e' hanswer
    | ok a =>
        simp only [hanswer, Except.mapError] at h
        cases h
  · intro a s' h
    cases hanswer : (f s).1 with
    | error e' =>
        simp only [hanswer, Except.mapError] at h
        cases h
    | ok a' =>
        simp only [hanswer, Except.mapError] at h
        cases h
        exact hok a hanswer

/-- A method that begins with a request. -/
lemma bind_request {α β : Type} {Q : Except Error β × σ → Prop} {f : σ → Except SftpError α × σ}
    {g : α → Method σ β} {s : σ}
    (herror : ∀ e, (f s).1 = .error e → Q (.error (mapSftpError e), (f s).2))
    (hok : ∀ a, (f s).1 = .ok a → Q (g a (f s).2)) : Q ((request f >>= g) s) :=
  bind_mapError mapSftpError herror hok

/-- A method that begins with an operation of an open file. -/
lemma bind_onFile {α β : Type} {Q : Except Error β × σ → Prop} {f : σ → Except IoError α × σ}
    {g : α → Method σ β} {s : σ}
    (herror : ∀ e, (f s).1 = .error e → Q (.error (mapIoError e), (f s).2))
    (hok : ∀ a, (f s).1 = .ok a → Q (g a (f s).2)) : Q ((onFile f >>= g) s) :=
  bind_mapError mapIoError herror hok

/-- What holds after every request of a method holds after the method. -/
lemma after_bind {α β : Type} {P : σ → Prop} {m : Method σ α} {f : α → Method σ β} {s : σ}
    (hm : P (m s).2) (hf : ∀ a, (m s).1 = .ok a → P (f a (m s).2).2) : P ((m >>= f) s).2 := by
  apply bind_ends (Q := fun r => P r.2)
  · intro e s' h
    rw [h] at hm
    exact hm
  · intro a s' h
    rw [h] at hf
    exact hf a rfl

lemma request_ok {α : Type} {f : σ → Except SftpError α × σ} {s : σ} {a : α} :
    (request f s).1 = .ok a ↔ (f s).1 = .ok a := by
  simp only [request]
  cases (f s).1 <;> simp [Except.mapError]

lemma onFile_ok {α : Type} {f : σ → Except IoError α × σ} {s : σ} {a : α} :
    (onFile f s).1 = .ok a ↔ (f s).1 = .ok a := by
  simp only [onFile]
  cases (f s).1 <;> simp [Except.mapError]

/-- The state after a request is that of the request. -/
@[simp] lemma request_snd {α : Type} (f : σ → Except SftpError α × σ) (s : σ) :
    (request f s).2 = (f s).2 := rfl

@[simp] lemma onFile_snd {α : Type} (f : σ → Except IoError α × σ) (s : σ) :
    (onFile f s).2 = (f s).2 := rfl

/-! ## Reads -/

lemma view_fill (hS : Server S view cursor) (file : φ) (size fuel : ℕ) (buffer : Bytes) (s : σ) :
    view (S.fill file size fuel buffer s).2 = view s := by
  induction fuel generalizing buffer s with
  | zero => rfl
  | succ fuel ih =>
      rw [fill]
      split
      · apply after_bind (P := fun t => view t = view s)
        · exact hS.readFile_view _ _ _
        · intro data _
          split
          · exact hS.readFile_view _ _ _
          · rw [ih]
            exact hS.readFile_view _ _ _
      · rfl

/-- A read of the transport changes nothing. -/
lemma view_read (hS : Server S view cursor) (timeout : ℕ) (p : RemotePath) (offset size : ℕ)
    (s : σ) : view ((S.backend timeout).read p offset size s).2 = view s := by
  show view (S.readRange timeout p offset size s).2 = view s
  rw [readRange]
  split
  · exact hS.cancel_view s
  · have hopen : view (request (S.openFile p.asStr .read) s).2 = view s := (hS.read_opens p s).1
    apply after_bind (P := fun t => view t = view s) hopen
    intro file _
    have hseek : view (onFile (S.seek file offset) (request (S.openFile p.asStr .read) s).2).2 =
        view s := (hS.seek_view _ _ _).trans hopen
    apply after_bind (P := fun t => view t = view s) hseek
    intro _ _
    exact (view_fill hS file size size [] _).trans hseek

/-- The loop fills the buffer with the bytes from the offset on: what it has so far is a piece of
the file, and the cursor stands at the end of the piece. -/
lemma fill_exact (hS : Server S view cursor) {file : φ} {path : Str} {f : Bytes} {m : Option Int}
    {offset size fuel : ℕ} {buffer data : Bytes} {s : σ}
    (hview : view s path = some (.file f m))
    (hcursor : cursor file s = some ⟨path, offset + buffer.length⟩)
    (hbuffer : buffer = slice f offset (offset + buffer.length))
    (hsize : buffer.length ≤ size) (hfuel : size ≤ buffer.length + fuel)
    (h : (S.fill file size fuel buffer s).1 = .ok data) :
    data = slice f offset (offset + size) := by
  induction fuel generalizing buffer s with
  | zero =>
      have hdone : buffer = data := Except.ok.inj h
      have hfull : buffer.length = size := by omega
      rw [← hdone, ← hfull]
      exact hbuffer
  | succ fuel ih =>
      rw [fill] at h
      by_cases hlt : buffer.length < size
      · rw [if_pos hlt] at h
        obtain ⟨chunk, hchunk, h⟩ := bind_ok h
        have hread := onFile_ok.mp hchunk
        obtain ⟨⟨f', m', hfile, hinitial, hsome⟩, hmoved⟩ := hS.readFile_ok _ _ _ _ _ hcursor hread
        obtain ⟨rfl, rfl⟩ : f' = f ∧ m' = m := by
          have heq := hfile.symm.trans hview
          simpa using heq
        by_cases hempty : chunk = []
        · -- nothing left: the buffer holds all of the file from the offset on
          rw [if_pos hempty] at h
          have hdone : buffer = data := Except.ok.inj h
          have hend : f'.length ≤ offset + buffer.length := by
            by_contra hmore
            exact hsome (by simpa using hmore) (by omega) hempty
          rw [← hdone, hbuffer, ← slice_min_length f' offset (offset + size),
            ← slice_min_length f' offset (offset + buffer.length)]
          congr 1
          omega
        · rw [if_neg hempty] at h
          have happend : buffer ++ chunk = slice f' offset (offset + (buffer ++ chunk).length) := by
            have hpiece :=
              slice_append_of_initial f' (Nat.le_add_right offset buffer.length) hinitial
            rw [← hbuffer, Nat.add_assoc, ← List.length_append] at hpiece
            exact hpiece
          have hshort : chunk.length ≤ size - buffer.length := by
            have hle := hinitial.length_le
            rw [length_slice] at hle
            omega
          have hmore : 0 < chunk.length := List.length_pos_of_ne_nil hempty
          refine ih (s := (onFile (S.readFile file (size - buffer.length)) s).2) ?_ ?_ happend
            ?_ ?_ h
          · rw [onFile_snd, hS.readFile_view]
            exact hview
          · rw [onFile_snd, hmoved, List.length_append, Nat.add_assoc]
          · rw [List.length_append]
            omega
          · rw [List.length_append]
            omega
      · rw [if_neg hlt] at h
        have hdone : buffer = data := Except.ok.inj h
        have hfull : buffer.length = size := by omega
        rw [← hdone, ← hfull]
        exact hbuffer

/-- What a read opens and seeks, before its loop. -/
lemma read_loop (hS : Server S view cursor) {timeout : ℕ} {p : RemotePath} {offset size : ℕ}
    {s : σ} {data : Bytes} (h : ((S.backend timeout).read p offset size s).1 = .ok data) :
    ∃ file s', view s' = view s ∧ cursor file s' = some ⟨p.asStr, offset⟩ ∧
      (S.fill file size size [] s').1 = .ok data := by
  change (S.readRange timeout p offset size s).1 = .ok data at h
  rw [readRange] at h
  split at h
  · cases h
  · obtain ⟨file, hopen, h⟩ := bind_ok h
    obtain ⟨_, hseek, h⟩ := bind_ok h
    have hcursor := (hS.read_opens p s).2 file (request_ok.mp hopen)
    refine ⟨file, _, ?_, hS.seek_ok _ _ _ _ hcursor (onFile_ok.mp hseek), h⟩
    exact (hS.seek_view _ _ _).trans (hS.read_opens p s).1

/-- **A read of the transport is never short.**  However few bytes the server gives at a time, a
read that succeeds answers with the whole of the range that the file has, and changes nothing. -/
theorem reads_whole (hS : Server S view cursor) (timeout : ℕ) {p : RemotePath} {offset size : ℕ}
    {s : σ} {data : Bytes} (h : ((S.backend timeout).read p offset size s).1 = .ok data) :
    (0 < size → ∃ f m, view s p.asStr = some (.file f m)) ∧
      (∀ f m, view s p.asStr = some (.file f m) → data = slice f offset (offset + size)) ∧
      view ((S.backend timeout).read p offset size s).2 = view s := by
  obtain ⟨file, s', hview, hcursor, hfill⟩ := read_loop hS h
  refine ⟨fun hsize => ?_, fun f m hfile => ?_, view_read hS timeout p offset size s⟩
  · obtain ⟨n, rfl⟩ : ∃ n, size = n + 1 := ⟨size - 1, by omega⟩
    rw [fill, if_pos (show ([] : Bytes).length < n + 1 from hsize)] at hfill
    obtain ⟨chunk, hchunk, -⟩ := bind_ok hfill
    obtain ⟨⟨f, m, hfile, -⟩, -⟩ := hS.readFile_ok _ _ _ _ _ hcursor (onFile_ok.mp hchunk)
    exact ⟨f, m, hview ▸ hfile⟩
  · have hnone : ([] : Bytes) = slice f offset (offset + ([] : Bytes).length) :=
      (slice_eq_nil_of_le f (le_refl offset)).symm
    exact fill_exact hS (hview ▸ hfile) hcursor hnone (Nat.zero_le size)
      (Nat.le_add_left size _) hfill

/-- The file of the sample server. -/
def samplePath : RemotePath := ⟨['/', 's'], by decide⟩

theorem reads_whole_example :
    ((Served.session.backend 30).read samplePath 0 3 Served.sample).1 = .ok [7, 8, 9] ∧
      ∀ f m, Served.sample.view samplePath.asStr = some (.file f m) →
        [7, 8, 9] = slice f 0 (0 + 3) := by
  have hread : ((Served.session.backend 30).read samplePath 0 3 Served.sample).1 =
      .ok [7, 8, 9] := rfl
  exact ⟨hread, (reads_whole Served.server 30 hread).2.1⟩

/-! ## Calls that change the tree -/

lemma view_stat (hS : Server S view cursor) (p : RemotePath) (s : σ) :
    view (S.stat p s).2 = view s := by
  apply after_bind (P := fun t => view t = view s)
  · exact hS.metadata_view _ _
  · exact fun _ _ => hS.metadata_view _ _

lemma stat_describes (hS : Server S view cursor) {p : RemotePath} {s : σ}
    {attributes : FileAttributes} (h : (S.stat p s).1 = .ok attributes) :
    ∃ node, view s p.asStr = some node ∧ Describes attributes node := by
  obtain ⟨metadata, hmetadata, h⟩ := bind_ok h
  obtain rfl : S.fileAttributes metadata = attributes := Except.ok.inj h
  exact hS.metadata_ok p s metadata (request_ok.mp hmetadata)

lemma makes_request {α : Type} {change : Change} {f : σ → Except SftpError α × σ} {s : σ}
    (h : Makes view change s (f s)) : Makes view change s (request f s) :=
  ⟨fun a ha => h.1 a (request_ok.mp ha), h.2⟩

/-- A change, and then a request for the attributes. -/
lemma makes_stat (hS : Server S view cursor) {α : Type} {change : Change} {m : Method σ α} {s : σ}
    (h : Makes view change s (m s)) (p : RemotePath) :
    Makes view change s ((m >>= fun _ => S.stat p) s) := by
  apply bind_ends
  · intro e s' hm
    rw [hm] at h
    exact ⟨nofun, h.2⟩
  · intro a s' hm
    rw [hm] at h
    rw [Makes, view_stat hS]
    exact ⟨fun _ _ => h.1 a rfl, h.2⟩

lemma makes_createFile (hS : Server S view cursor) (p : RemotePath) (mode : UInt32) (s : σ) :
    Makes view (.create p) s (S.createFile p mode s) :=
  makes_stat hS (makes_request (hS.create_makes p _ s)) p

lemma makes_setattr (hS : Server S view cursor) (p : RemotePath) (attributes : SetAttributes)
    (s : σ) : Makes view (.set p (setAttributes attributes)) s (S.setattr p attributes s) :=
  makes_stat hS (makes_request (hS.setMetadata_makes p _ s)) p

/-- The permissions of a directory are not in its tree. -/
lemma view_setMetadata_dir (hS : Server S view cursor) {p : RemotePath}
    {attributes : SftpAttributes} {s : σ} (h : view s p.asStr = some .dir) :
    view (S.setMetadata p.asStr attributes s).2 = view s := by
  rcases (hS.setMetadata_makes p attributes s).2 with
    hsame | ⟨part, -, node, node', hnode, hset, hview⟩
  · exact hsame
  · obtain rfl : RemoteNode.dir = node := Option.some.inj (h.symm.trans hnode)
    rw [hview, hset, ← h, Function.update_eq_self]

/-- The steps of `mkdir` before it asks for the attributes. -/
def makeDir (S : SftpSession σ φ) (p : RemotePath) (mode : UInt32) : Method σ Unit :=
  request (S.createDir p.asStr) >>= fun _ s =>
    (.ok (), (S.setMetadata p.asStr { permissions := some mode } s).2)

lemma mkdir_eq (p : RemotePath) (mode : UInt32) :
    S.mkdir p mode = S.makeDir p mode >>= fun _ => S.stat p := by
  rw [mkdir, makeDir, bind_assoc]

/-- The permissions of a new directory are set, or not. -/
lemma makes_makeDir (hS : Server S view cursor) (p : RemotePath) (mode : UInt32) (s : σ) :
    Makes view (.createDir p) s (S.makeDir p mode s) := by
  have hcreate := hS.createDir_makes p s
  refine bind_request (fun e _ => ⟨nofun, hcreate.2⟩) fun a h => ?_
  have hmade := hcreate.1 a h
  have hdir : view (S.createDir p.asStr s).2 p.asStr = some .dir := by
    rw [hmade.2]
    exact Function.update_self _ _ _
  rw [Makes, view_setMetadata_dir hS hdir]
  exact ⟨fun _ _ => hmade, hmade.attempt⟩

lemma makes_mkdir (hS : Server S view cursor) (p : RemotePath) (mode : UInt32) (s : σ) :
    Makes view (.createDir p) s (S.mkdir p mode s) := by
  rw [mkdir_eq]
  exact makes_stat hS (makes_makeDir hS p mode s) p

/-! A write: the file is opened, the cursor is set, and the data is written. -/

/-- The data is written at the cursor; if there is none, nothing happens. -/
lemma makes_writeAll (hS : Server S view cursor) {file : φ} {p : RemotePath} {offset : ℕ}
    (data : Bytes) {s : σ} (hfile : ∃ f m, view s p.asStr = some (.file f m))
    (hcursor : cursor file s = some ⟨p.asStr, offset⟩) :
    Makes view (.write p offset data) s (S.writeAll file data s) := by
  by_cases hdata : data = []
  · subst hdata
    apply makes_effect
    rw [hS.writeAll_nil]
    exact Change.effect_write_nil hfile
  · exact hS.writeAll_makes _ _ _ _ _ hdata hcursor

lemma makes_writeRange (hS : Server S view cursor) (p : RemotePath) (offset : UInt64)
    (data : Bytes) (s : σ) :
    Makes view (.write p offset.toNat data) s (S.writeRange p offset data s) := by
  obtain ⟨hopen, hopened⟩ := hS.write_opens p s
  refine bind_request (fun e _ => makes_none hopen) fun file hfile => ?_
  obtain ⟨hfound, hcursor⟩ := hopened file hfile
  set s₁ := (S.openFile p.asStr .write s).2
  have hseek : view (S.seek file offset.toNat s₁).2 = view s := (hS.seek_view _ _ _).trans hopen
  refine bind_onFile (fun e _ => makes_none hseek) fun _ hsought => ?_
  have hcursor := hS.seek_ok _ _ _ _ hcursor hsought
  set s₂ := (S.seek file offset.toNat s₁).2
  obtain ⟨hall, hpart⟩ := makes_writeAll hS data (hseek ▸ hfound) hcursor
  rw [hseek] at hall hpart
  refine bind_onFile (fun e _ => ⟨nofun, hpart⟩) fun _ hwrite => ?_
  have hwritten := hall () hwrite
  rw [← hS.flush_view file (S.writeAll file data s₂).2] at hwritten
  exact bind_onFile (fun e _ => makes_effect hwritten) fun _ _ => makes_effect hwritten

end SftpSession

namespace Mutation

/-- The change that a call asks for. -/
def change : Mutation → Change
  | .write path offset data => .write path offset.toNat data
  | .create path _ => .create path
  | .mkdir path _ => .createDir path
  | .unlink path => .removeFile path
  | .rmdir path => .removeDir path
  | .rename src dst => .rename src dst
  | .setattr path attributes => .set path (setAttributes attributes)

end Mutation

namespace SftpSession

variable {σ φ : Type} {S : SftpSession σ φ} {view : σ → Tree} {cursor : φ → σ → Option Cursor}

lemma makes_map {α : Type} {change : Change} {s : σ} {answer : Except Error α × σ}
    (h : Makes view change s answer) :
    Makes view change s (answer.1.map fun _ => (), answer.2) := by
  refine ⟨fun _ hok => ?_, h.2⟩
  cases hanswer : answer.1 with
  | error e =>
      rw [hanswer] at hok
      cases hok
  | ok a => exact h.1 a hanswer

/-- What a call has done when it ends. -/
lemma makes_run (hS : Server S view cursor) (timeout : ℕ) (m : Mutation) (s : σ) :
    Makes view m.change s (m.run (S.backend timeout) s) := by
  cases m with
  | write path offset data => exact makes_map (makes_writeRange hS path offset data s)
  | create path mode => exact makes_map (makes_createFile hS path mode s)
  | mkdir path mode => exact makes_map (makes_mkdir hS path mode s)
  | unlink path => exact makes_request (hS.removeFile_makes path s)
  | rmdir path => exact makes_request (hS.removeDir_makes path s)
  | rename src dst => exact makes_request (hS.rename_makes src dst s)
  | setattr path attributes => exact makes_map (makes_setattr hS path attributes s)

/-- **A call over a server that may fail at any time.**  A call that succeeds has made exactly its
change; one that fails has made it, or a part of a write or of a setting of attributes, or nothing;
and everything is as it was that the call does not name. -/
theorem calls_framed (hS : Server S view cursor) (timeout : ℕ) (m : Mutation) (s : σ) :
    ((m.run (S.backend timeout) s).1 = .ok () →
        m.change.Effect (view s) (view (m.run (S.backend timeout) s).2)) ∧
      m.change.Attempt (view s) (view (m.run (S.backend timeout) s).2) ∧
      ∀ q, ¬ m.change.Touches q → view (m.run (S.backend timeout) s).2 q = view s q := by
  obtain ⟨hok, hattempt⟩ := makes_run hS timeout m s
  exact ⟨hok (), hattempt, fun q hq => hattempt.frame hq⟩

theorem calls_framed_example :
    ((Mutation.write samplePath 1 [9]).run (Served.session.backend 30) Served.sample).1 = .ok () ∧
      (Change.write samplePath 1 [9]).Effect Served.sample.view
        ((Mutation.write samplePath 1 [9]).run (Served.session.backend 30)
          Served.sample).2.view := by
  have hok : ((Mutation.write samplePath 1 [9]).run (Served.session.backend 30)
      Served.sample).1 = .ok () := rfl
  exact ⟨hok, (calls_framed Served.server 30 (.write samplePath 1 [9]) Served.sample).1 hok⟩

end SftpSession

/-! ## Over a server that does not fail by itself -/

/-- **The contract of a remote.**  It answers from its tree, and a call that changes the tree makes
exactly the change that it asks for. -/
structure Contract {ρ : Type} (R : RemoteFilesystem ρ) (view : ρ → Tree) : Prop where
  answers : Answers R view
  mutates : Mutates R view
  lists : ListsChildren R view
  /-- A directory is listed. -/
  listed : ∀ p r, view r p.asStr = some .dir → ∃ entries, (R.readDir p r).1 = .ok entries
  effect : ∀ (m : Mutation) r, (m.run R r).1 = .ok () →
    m.change.Effect (view r) (view (m.run R r).2)
  /-- A write that succeeds has written everything, and says so. -/
  written : ∀ p offset data r n, (R.write p offset data r).1 = .ok n →
    n = UInt32.ofNat data.length

namespace SftpSession

variable {σ φ : Type} {S : SftpSession σ φ} {view : σ → Tree} {cursor : φ → σ → Option Cursor}

lemma refuses_request {α : Type} {f : σ → Except SftpError α × σ} {s : σ}
    (h : Refuses view s (f s)) : Refuses view s (request f s) := by
  intro e he
  cases hanswer : (f s).1 with
  | error e' => exact h e' hanswer
  | ok a => simp [request, hanswer, Except.mapError] at he

/-- The attributes that are asked for after a change describe the tree after the change. -/
lemma describes_after (hS : Server S view cursor) {α : Type} {m : Method σ α} {p : RemotePath}
    {s : σ} {attributes : FileAttributes}
    (h : ((m >>= fun _ => S.stat p) s).1 = .ok attributes) :
    ∃ node, view ((m >>= fun _ => S.stat p) s).2 p.asStr = some node ∧
      Describes attributes node := by
  revert h
  apply bind_ends (Q := fun r => r.1 = .ok attributes →
    ∃ node, view r.2 p.asStr = some node ∧ Describes attributes node)
  · intro e s' _ h
    cases h
  · intro a s' _ h
    rw [view_stat hS]
    exact stat_describes hS h

/-- A change whose path is there afterwards: only the change itself can fail. -/
lemma refuses_stat (hR : Reliable S view cursor) {α : Type} {m : Method σ α} {p : RemotePath}
    {s : σ} (hm : Refuses view s (m s))
    (hnode : ∀ a, (m s).1 = .ok a → ∃ node, view (m s).2 p.asStr = some node) :
    Refuses view s ((m >>= fun _ => S.stat p) s) := by
  apply bind_ends
  · intro e s' h e' _
    rw [h] at hm
    exact hm e rfl
  · intro a s' h e he
    rw [h] at hnode
    obtain ⟨node, hsome⟩ := hnode a rfl
    obtain ⟨metadata, hmetadata⟩ := hR.metadata_some p s' node hsome
    exfalso
    revert he
    refine bind_request (Q := fun r => r.1 = .error e → False) (fun e' h' => ?_) fun _ _ => nofun
    rw [h'] at hmetadata
    cases hmetadata

lemma fill_succeeds (hR : Reliable S view cursor) {file : φ} {path : Str} {f : Bytes}
    {m : Option Int} {size position fuel : ℕ} {buffer : Bytes} {s : σ}
    (hview : view s path = some (.file f m)) (hcursor : cursor file s = some ⟨path, position⟩) :
    ∃ data, (S.fill file size fuel buffer s).1 = .ok data := by
  induction fuel generalizing buffer s position with
  | zero => exact ⟨buffer, rfl⟩
  | succ fuel ih =>
      rw [fill]
      split
      · refine bind_onFile (Q := fun r => ∃ data, r.1 = .ok data) (fun e he => ?_)
          fun data hok => ?_
        · obtain ⟨data, hdata⟩ := hR.readFile_some _ (size - buffer.length) _ _ _ _ hcursor hview
          rw [he] at hdata
          cases hdata
        · split
          · exact ⟨buffer, rfl⟩
          · have hmoved := (hR.readFile_ok _ _ _ _ _ hcursor hok).2
            refine ih ?_ hmoved
            rw [hR.readFile_view]
            exact hview
      · exact ⟨buffer, rfl⟩

/-- A read of a file succeeds. -/
lemma read_succeeds (hR : Reliable S view cursor) (timeout : ℕ) {p : RemotePath} {offset size : ℕ}
    {s : σ} {f : Bytes} {m : Option Int} (hfile : view s p.asStr = some (.file f m)) :
    ∃ data, ((S.backend timeout).read p offset size s).1 = .ok data := by
  show ∃ data, (S.readRange timeout p offset size s).1 = .ok data
  obtain ⟨hopen, hcursor⟩ := hR.read_opens p s
  rw [readRange, hR.in_time, if_neg Bool.false_ne_true]
  refine bind_request (Q := fun r => ∃ data, r.1 = .ok data) (fun e he => ?_) fun file hok => ?_
  · obtain ⟨file, hok⟩ := hR.read_file p s f m hfile
    rw [he] at hok
    cases hok
  · have hcursor := hcursor file hok
    set s₁ := (S.openFile p.asStr .read s).2
    have hseek := hR.seek_some file offset s₁ _ hcursor
    refine bind_onFile (Q := fun r => ∃ data, r.1 = .ok data) (fun e he => ?_) fun _ _ => ?_
    · rw [he] at hseek
      cases hseek
    · have hsame : view (S.seek file offset s₁).2 p.asStr = some (.file f m) := by
        rw [hR.seek_view, hopen]
        exact hfile
      exact fill_succeeds hR hsame (hR.seek_ok _ _ _ _ hcursor hseek)

/-- A read of anything else fails. -/
lemma read_fails (hR : Reliable S view cursor) (timeout : ℕ) {p : RemotePath} {offset size : ℕ}
    {s : σ} (hother : ∀ f m, view s p.asStr ≠ some (.file f m)) :
    ∃ e, ((S.backend timeout).read p offset size s).1 = .error e := by
  show ∃ e, (S.readRange timeout p offset size s).1 = .error e
  obtain ⟨e, he⟩ := hR.read_other p s hother
  rw [readRange, hR.in_time, if_neg Bool.false_ne_true]
  exact ⟨_, bind_error (request_error he)⟩

lemma statsTree (hR : Reliable S view cursor) (timeout : ℕ) :
    StatsTree (S.backend timeout) view where
  view_read p o n s := view_read hR.toServer timeout p o n s
  read_file p o n s f m hfile := by
    obtain ⟨data, hdata⟩ := read_succeeds hR timeout hfile
    refine ⟨data, hdata, ?_⟩
    obtain ⟨file, s', hview, hcursor, hfill⟩ := read_loop hR.toServer hdata
    have hnone : ([] : Bytes) = slice f o (o + ([] : Bytes).length) :=
      (slice_eq_nil_of_le f (le_refl o)).symm
    have hexact : data = slice f o (o + n) :=
      fill_exact hR.toServer (hview ▸ hfile) hcursor hnone (Nat.zero_le n) (Nat.le_add_left n _)
        hfill
    refine ⟨hexact ▸ List.prefix_refl _, fun hlt hn hempty => ?_⟩
    have hlength := congrArg List.length (hexact.symm.trans hempty)
    rw [length_slice, List.length_nil] at hlength
    omega
  view_stat p s := view_stat hR.toServer p s
  view_readDir p s := by
    apply after_bind (P := fun t => view t = view s)
    · exact hR.readDir_view _ _
    · exact fun _ _ => hR.readDir_view _ _
  stat_some p s node hnode := by
    obtain ⟨metadata, hmetadata⟩ := hR.metadata_some p s node hnode
    have hstat : (S.stat p s).1 = .ok (S.fileAttributes metadata) := by
      refine bind_request (Q := fun r => r.1 = .ok (S.fileAttributes metadata)) ?_ ?_
      · intro e he
        rw [he] at hmetadata
        cases hmetadata
      · intro metadata' hok
        rw [hok] at hmetadata
        cases hmetadata
        rfl
    obtain ⟨node', hnode', hdescribes⟩ := stat_describes hR.toServer hstat
    obtain rfl : node' = node := Option.some.inj (hnode'.symm.trans hnode)
    exact ⟨_, hstat, hdescribes⟩
  stat_none p s hnone := by
    obtain ⟨message, hmessage⟩ := hR.metadata_none p s hnone
    exact bind_error (request_error hmessage)
  read_other p o n s hother := read_fails hR timeout hother
  readDir_reachable p s message h := by
    revert h
    refine bind_request (Q := fun r => r.1 ≠ .error (.unavailable message)) (fun e _ h => ?_)
      fun _ _ => nofun
    cases e with
    | status code text => cases code <;> cases h
    | other text => cases h

/-- A listing that has been asked for is the one that the server gives. -/
lemma readDirectory_ok {p : RemotePath} {s : σ} {entries : List RemoteDirectoryEntry}
    (h : (S.readDirectory p s).1 = .ok entries) : ∃ found, (S.readDir p.asStr s).1 = .ok found ∧
      entries = found.map fun entry => ⟨entry.1, S.fileAttributes entry.2⟩ := by
  obtain ⟨found, hfound, h⟩ := bind_ok h
  exact ⟨found, request_ok.mp hfound, (Except.ok.inj h).symm⟩

/-- Listings describe the tree. -/
lemma answers (hR : Reliable S view cursor) (hL : Lists S view) (timeout : ℕ) :
    Answers (S.backend timeout) view where
  toStatsTree := statsTree hR timeout
  lists p s entries h := by
    obtain ⟨found, hfound, rfl⟩ := readDirectory_ok h
    obtain ⟨hdir, hchildren⟩ := hL.describes p s found hfound
    refine ⟨hdir, fun e he hvalid => ?_⟩
    obtain ⟨entry, hentry, rfl⟩ := List.mem_map.mp he
    exact hchildren entry hentry hvalid

lemma listsChildren (hL : Lists S view) (timeout : ℕ) :
    ListsChildren (S.backend timeout) view where
  names_valid p s entries h := by
    obtain ⟨found, hfound, rfl⟩ := readDirectory_ok h
    intro e he
    obtain ⟨entry, hentry, rfl⟩ := List.mem_map.mp he
    exact hL.names_valid p s found hfound entry hentry
  names_nodup p s entries h := by
    obtain ⟨found, hfound, rfl⟩ := readDirectory_ok h
    rw [List.map_map]
    exact hL.names_nodup p s found hfound
  names_complete p s entries h := by
    obtain ⟨found, hfound, rfl⟩ := readDirectory_ok h
    rw [List.map_map]
    exact hL.names_complete p s found hfound

/-- A directory is listed. -/
lemma readDirectory_succeeds (hR : Reliable S view cursor) {p : RemotePath} {s : σ}
    (hdir : view s p.asStr = some .dir) : ∃ entries, (S.readDirectory p s).1 = .ok entries := by
  obtain ⟨found, hfound⟩ := hR.readDir_some p s hdir
  refine bind_request (Q := fun r => ∃ entries, r.1 = .ok entries) (fun e he => ?_)
    fun entries _ => ⟨_, rfl⟩
  rw [he] at hfound
  cases hfound

/-! The mutating calls. -/

lemma refuses_writeRange (hR : Reliable S view cursor) (p : RemotePath) (offset : UInt64)
    (data : Bytes) (s : σ) : Refuses view s (S.writeRange p offset data s) := by
  obtain ⟨hopen, hcursor⟩ := hR.write_opens p s
  refine bind_request (fun e _ _ _ => hopen) fun file hfile => ?_
  have hcursor := (hcursor file hfile).2
  set s₁ := (S.openFile p.asStr .write s).2
  have hseek : view (S.seek file offset.toNat s₁).2 = view s := (hR.seek_view _ _ _).trans hopen
  refine bind_onFile (fun e _ _ _ => hseek) fun _ hsought => ?_
  have hcursor := hR.seek_ok _ _ _ _ hcursor hsought
  set s₂ := (S.seek file offset.toNat s₁).2
  refine bind_onFile (fun e herror _ _ => ?_) fun _ _ => ?_
  · exact (hR.writeAll_refuses file data s₂ _ hcursor e herror).trans hseek
  · refine bind_onFile (fun e herror => ?_) fun _ _ _ => nofun
    rw [hR.flush_some] at herror
    cases herror

lemma refuses_makeDir (hR : Reliable S view cursor) (p : RemotePath) (mode : UInt32) (s : σ) :
    Refuses view s (S.makeDir p mode s) :=
  bind_request (fun e he _ _ => hR.createDir_refuses p s e he) fun _ _ _ => nofun

/-- The node that a change has put at its path. -/
lemma eq_of_update {t t' : Tree} {p : Str} {node node' : RemoteNode}
    (h : t' = Function.update t p (some node)) (hnode : t' p = some node') : node' = node := by
  rw [h, Function.update_self] at hnode
  exact (Option.some.inj hnode).symm

/-- A call that succeeds has changed its own path, and its answer describes what is there. -/
lemma does (hS : Server S view cursor) (timeout : ℕ) (m : Mutation) (s : σ) :
    m.Does (S.backend timeout) view s := by
  cases m with
  | write p o d =>
      intro n h
      obtain ⟨f, m, m', hfile, hview⟩ := (makes_writeRange hS p o d s).1 n h
      exact ⟨f, m, _, m', hfile, hview⟩
  | create p mode =>
      intro attributes h
      obtain ⟨hnone, m, hview⟩ := (makes_createFile hS p mode s).1 attributes h
      obtain ⟨node, hnode, hdescribes⟩ := describes_after hS h
      rw [eq_of_update hview hnode] at hdescribes
      exact ⟨[], m, hnone, hdescribes, hview⟩
  | mkdir p mode =>
      intro attributes h
      obtain ⟨hnone, hview⟩ := (makes_mkdir hS p mode s).1 attributes h
      refine ⟨hnone, ?_, hview⟩
      change ((S.mkdir p mode) s).1 = .ok attributes at h
      rw [mkdir_eq] at h hview
      obtain ⟨node, hnode, hdescribes⟩ := describes_after hS h
      rw [eq_of_update hview hnode] at hdescribes
      exact hdescribes
  | unlink p =>
      intro h
      obtain ⟨⟨f, m, hfile⟩, hview⟩ := (makes_request (hS.removeFile_makes p s)).1 () h
      exact ⟨f, m, hfile, hview⟩
  | rmdir p => exact (makes_request (hS.removeDir_makes p s)).1 ()
  | rename src dst => exact (makes_request (hS.rename_makes src dst s)).1 ()
  | setattr p a =>
      intro attributes h
      obtain ⟨node, node', hnode, hset, hview⟩ := (makes_setattr hS p a s).1 attributes h
      obtain ⟨found, hfound, hdescribes⟩ := describes_after hS h
      rw [eq_of_update hview hfound] at hdescribes
      refine ⟨node, node', hnode, ?_, hdescribes, hview⟩
      cases node with
      | dir => exact hset
      | file f m =>
          obtain ⟨m', rfl, -⟩ := hset
          exact ⟨m', rfl⟩

/-- A call that fails has changed nothing. -/
lemma refuses_run (hR : Reliable S view cursor) (timeout : ℕ) (m : Mutation) (s : σ) :
    Refuses view s (m.run (S.backend timeout) s) := by
  cases m with
  | write p o d => exact fun e h => refuses_writeRange hR p o d s e (Mutation.map_eq_error.mp h)
  | create p mode =>
      intro e h
      refine refuses_stat hR (refuses_request (hR.create_refuses p _ s)) (fun file hok => ?_) e
        (Mutation.map_eq_error.mp h)
      obtain ⟨-, m, hview⟩ := (hR.create_makes p _ s).1 file (request_ok.mp hok)
      exact ⟨.file [] m, by rw [request_snd, hview, Function.update_self]⟩
  | mkdir p mode =>
      intro e h
      replace h : (S.mkdir p mode s).1 = .error e := Mutation.map_eq_error.mp h
      show view (S.mkdir p mode s).2 = view s
      rw [mkdir_eq] at h ⊢
      refine refuses_stat hR (refuses_makeDir hR p mode s) (fun a hok => ?_) e h
      obtain ⟨-, hview⟩ := (makes_makeDir hR.toServer p mode s).1 a hok
      exact ⟨.dir, by rw [hview, Function.update_self]⟩
  | unlink p => exact refuses_request (hR.removeFile_refuses p s)
  | rmdir p => exact refuses_request (hR.removeDir_refuses p s)
  | rename src dst => exact refuses_request (hR.rename_refuses src dst s)
  | setattr p a =>
      intro e h
      refine refuses_stat hR (refuses_request (hR.setMetadata_refuses p _ s)) (fun _ hok => ?_) e
        (Mutation.map_eq_error.mp h)
      obtain ⟨-, node', -, -, hview⟩ := (hR.setMetadata_makes p _ s).1 _ (request_ok.mp hok)
      exact ⟨node', by rw [request_snd, hview, Function.update_self]⟩

lemma mutates (hR : Reliable S view cursor) (timeout : ℕ) : Mutates (S.backend timeout) view where
  does := does hR.toServer timeout
  refuses m s := refuses_run hR timeout m s
  file_size := hR.file_size

/-- A write that succeeds answers the length of the data. -/
lemma written_eq {p : RemotePath} {offset : UInt64} {data : Bytes} {s : σ} {n : UInt32}
    (h : (S.writeRange p offset data s).1 = .ok n) : n = UInt32.ofNat data.length := by
  obtain ⟨file, -, h⟩ := bind_ok h
  obtain ⟨_, -, h⟩ := bind_ok h
  obtain ⟨_, -, h⟩ := bind_ok h
  obtain ⟨_, -, h⟩ := bind_ok h
  exact (Except.ok.inj h).symm

lemma contract (hR : Reliable S view cursor) (hL : Lists S view) (timeout : ℕ) :
    Contract (S.backend timeout) view where
  answers := answers hR hL timeout
  mutates := mutates hR timeout
  lists := listsChildren hL timeout
  listed _ _ := readDirectory_succeeds hR
  effect m s := (makes_run hR.toServer timeout m s).1 ()
  written _ _ _ _ _ := written_eq

/-- **What the cache assumes of a remote holds of the transport**, over every server that does not
fail by itself and has no links.  What is there is found, read and listed; a call that succeeds has
made exactly its change, and one that fails has changed nothing. -/
theorem backend_contract (hR : Reliable S view cursor) (hL : Lists S view) (timeout : ℕ) :
    Contract (S.backend timeout) view := contract hR hL timeout

theorem backend_contract_example : Contract (Served.session.backend 30) Served.view :=
  backend_contract Served.reliable Served.lists 30

end SftpSession

end CacheShfs
