import CacheShfs.Sftp.Backend
import CacheShfs.Vfs.Hydrate

/-!
# A lost connection

What an on-demand mount over SFTP answers once the connection is gone, so that every request of
the session fails.  The transport reports such failures as errors of the remote, not as an
unreachable remote (only a connection that cannot be established and a read that times out are
reported so), and the mount falls back to its cache for an unreachable remote alone.  So the
cache is used exactly as long as it would not have been revalidated (`lost_connection_iff`).
-/

namespace CacheShfs

open Machine

/-- An error that says that the connection is gone: any local failure, or one of the two status
codes for it. -/
def SftpError.ConnectionGone : SftpError → Prop
  | .status code _ => code = .noConnection ∨ code = .connectionLost
  | .other _ => True

/-- Such an error is reported as an error of the remote. -/
lemma mapSftpError_gone {e : SftpError} (h : e.ConnectionGone) :
    ∃ text, mapSftpError e = .remoteBackend text := by
  cases e with
  | status code message =>
      rcases h with rfl | rfl
      · exact ⟨_, rfl⟩
      · exact ⟨_, rfl⟩
  | other text => exact ⟨_, rfl⟩

/-- The answer of a request says that the connection is gone. -/
def FailsGone {σ α : Type} (answer : Except SftpError α × σ) : Prop :=
  ∃ e : SftpError, e.ConnectionGone ∧ answer.1 = .error e

/-- Every request of the session fails because the connection is gone. -/
structure SftpSession.Lost {σ φ : Type} (S : SftpSession σ φ) (s : σ) : Prop where
  metadata : ∀ path, FailsGone (S.metadata path s)
  readDir : ∀ path, FailsGone (S.readDir path s)
  openFile : ∀ path how, FailsGone (S.openFile path how s)
  createDir : ∀ path, FailsGone (S.createDir path s)
  setMetadata : ∀ path attributes, FailsGone (S.setMetadata path attributes s)
  removeFile : ∀ path, FailsGone (S.removeFile path s)
  removeDir : ∀ path, FailsGone (S.removeDir path s)
  rename : ∀ src dst, FailsGone (S.rename src dst s)

namespace SftpSession.Lost

variable {σ φ : Type} {S : SftpSession σ φ} {s : σ}

lemma stat (h : S.Lost s) (timeout : ℕ) (path : RemotePath) :
    ∃ text, ((S.backend timeout).stat path s).1 = .error (.remoteBackend text) := by
  obtain ⟨e, hgone, he⟩ := h.metadata path.asStr
  obtain ⟨text, htext⟩ := mapSftpError_gone hgone
  exact ⟨text, htext ▸ stat_error he timeout⟩

lemma readDirectory (h : S.Lost s) (timeout : ℕ) (path : RemotePath) :
    ∃ text, ((S.backend timeout).readDir path s).1 = .error (.remoteBackend text) := by
  obtain ⟨e, hgone, he⟩ := h.readDir path.asStr
  obtain ⟨text, htext⟩ := mapSftpError_gone hgone
  exact ⟨text, htext ▸ readDir_error he timeout⟩

end SftpSession.Lost

namespace World

variable {ρ : Type} {R : RemoteFilesystem ρ} {w : World ρ}

/-! ## Answers when the remote fails -/

/-- Cached attributes are served without the remote exactly while they are fresh. -/
lemma freshAttrs_iff {path : RemotePath} {a : FileAttributes}
    (ha : w.store.getAttrs path = some a) :
    w.freshAttrs path = some a ↔ w.metadataFresh path = true := by
  rw [freshAttrs_eq_some]
  exact and_iff_left ha

lemma freshAttrs_eq_none {path : RemotePath} {a : FileAttributes}
    (ha : w.store.getAttrs path = some a) (h : w.freshAttrs path = none) :
    w.metadataFresh path = false := by
  cases hfresh : w.metadataFresh path with
  | false => rfl
  | true =>
      rw [(freshAttrs_iff ha).mpr hfresh] at h
      cases h

section Failing
variable (honline : w.offline = false)
include honline

/-- `getattr` of cached attributes, where the remote fails without being unreachable. -/
lemma getattr_backend_error {n : NodeId} {path : RemotePath} {a : FileAttributes} {text : String}
    (hpath : w.state.path n = some path) (ha : w.store.getAttrs path = some a)
    (hstat : (R.stat path w.conn.remote).1 = .error (.remoteBackend text)) :
    (w.getattr R n = (.ok ⟨n, a⟩, w) ∧ w.metadataFresh path = true) ∨
      ((w.getattr R n).1 = .error (.remoteBackend text) ∧ w.metadataFresh path = false) := by
  have hanswer : w.conn.stat R path = (.error (.remoteBackend text), (w.conn.stat R path).2) :=
    Prod.ext hstat rfl
  rcases getattr_answer (R := R) honline hpath with ⟨b, hfresh, hget⟩ | ⟨hstale, hget⟩
  · obtain ⟨hnow, hb⟩ := freshAttrs_eq_some.mp hfresh
    rw [ha] at hb
    cases hb
    exact .inl ⟨hget, hnow⟩
  · refine .inr ⟨?_, freshAttrs_eq_none ha hstale⟩
    rw [hget, getattrRemote, hanswer]
    simp [ha, isUnreachable]

lemma lookup_backend_error {n : NodeId} {name : Str} {child : RemotePath} {a : FileAttributes}
    {text : String} (hchild : w.childPath n name = .ok child)
    (ha : w.store.getAttrs child = some a)
    (hstat : (R.stat child w.conn.remote).1 = .error (.remoteBackend text)) :
    (∃ m, (w.lookup R n name).1 = .ok ⟨m, a⟩) ↔
      w.freshNegative n name = false ∧ w.metadataFresh child = true := by
  have hanswer : w.conn.stat R child = (.error (.remoteBackend text), (w.conn.stat R child).2) :=
    Prod.ext hstat rfl
  rcases lookup_answer (R := R) honline hchild with
    ⟨hneg, hget⟩ | ⟨b, hneg, hfresh, hget⟩ | ⟨hneg, hstale, hget⟩
  · simp [hget, hneg]
  · obtain ⟨hnow, hb⟩ := freshAttrs_eq_some.mp hfresh
    rw [ha] at hb
    cases hb
    exact iff_of_true ⟨_, by rw [hget]; rfl⟩ ⟨hneg, hnow⟩
  · have hold := freshAttrs_eq_none ha hstale
    rw [hget, lookupRemote, hanswer]
    simp [ha, isUnreachable, hold]

lemma readdir_backend_error {n : NodeId} {path : RemotePath} {l : List (Str × FileAttributes)}
    {text : String} (hpath : w.state.path n = some path)
    (hl : cachedListing path w.store = some l)
    (hread : (R.readDir path w.conn.remote).1 = .error (.remoteBackend text)) :
    (∃ entries, (w.readdir R n).1 = .ok entries ∧ entries.map DirectoryEntry.shown = l) ↔
      w.metadataFresh path = true := by
  have hanswer : w.conn.readDir R path =
      (.error (.remoteBackend text), (w.conn.readDir R path).2) := Prod.ext hread rfl
  rcases readdirFromCache_cases w path with ⟨-, hnone⟩ | ⟨entries, st, hcache, hshown⟩
  · rw [hl] at hnone
    cases hnone
  · rw [hl] at hshown
    cases hshown
    simp only [readdir, State.pathOf_ok.mpr hpath]
    cases hfresh : w.metadataFresh path with
    | true =>
        simp only [if_true, hcache]
        exact iff_of_true ⟨entries, rfl, rfl⟩ trivial
    | false =>
        simp only [Bool.false_eq_true, if_false, honline, readdirRemote]
        rw [hanswer]
        simp [isUnreachable]

end Failing

/-! ## What is served of the cache -/

/-- The call is answered from the cache, if what it asks for is cached: attributes, a listing,
or a range all of whose chunks are there. -/
def ServesCached (R : RemoteFilesystem ρ) (w : World ρ) : Event ρ → Prop
  | .call (.getattr n) => ∀ path a, w.state.path n = some path →
      w.store.getAttrs path = some a → (w.getattr R n).1 = .ok ⟨n, a⟩
  | .call (.lookup n name) => ∀ child a, w.childPath n name = .ok child →
      w.store.getAttrs child = some a → ∃ m, (w.lookup R n name).1 = .ok ⟨m, a⟩
  | .call (.readdir n) => ∀ path l, w.state.path n = some path →
      cachedListing path w.store = some l →
      ∃ entries, (w.readdir R n).1 = .ok entries ∧ entries.map DirectoryEntry.shown = l
  | .call (.read handle offset size) => ∀ n path a d, w.state.file handle = some ⟨n, path⟩ →
      w.state.path n = some path → w.store.getAttrs path = some a →
      Served path a offset size d w.store → (w.read R handle offset size).1 = .ok d
  | _ => True

/-- What the call asks for, if it is cached, has been confirmed within the time to live; and a
name has not been missed within that of missing names. -/
def AsksFresh (w : World ρ) : Event ρ → Prop
  | .call (.getattr n) => ∀ path a, w.state.path n = some path →
      w.store.getAttrs path = some a → w.metadataFresh path = true
  | .call (.lookup n name) => ∀ child a, w.childPath n name = .ok child →
      w.store.getAttrs child = some a →
      w.freshNegative n name = false ∧ w.metadataFresh child = true
  | .call (.readdir n) => ∀ path l, w.state.path n = some path →
      cachedListing path w.store = some l → w.metadataFresh path = true
  | .call (.read handle offset size) => ∀ n path a d, w.state.file handle = some ⟨n, path⟩ →
      w.state.path n = some path → w.store.getAttrs path = some a →
      Served path a offset size d w.store → w.metadataFresh path = true
  | _ => True

lemma servesCached_iff {σ φ : Type} {S : SftpSession σ φ} {timeout : ℕ} {w : World σ}
    (hmode : w.config.cacheMode = .onDemand) (hlost : S.Lost w.conn.remote) (e : Event σ) :
    ServesCached (S.backend timeout) w e ↔ AsksFresh w e := by
  have honline : w.offline = false := by simp [offline, hmode]
  cases e with
  | call call =>
      cases call with
      | getattr n =>
          refine forall₄_congr fun path a hpath ha => ?_
          obtain ⟨text, hstat⟩ := hlost.stat timeout path
          rcases getattr_backend_error honline hpath ha hstat with ⟨hget, hfresh⟩ | ⟨hget, hfresh⟩
          · simp [hget, hfresh]
          · simp [hget, hfresh]
      | lookup n name =>
          refine forall₄_congr fun child a hchild ha => ?_
          obtain ⟨text, hstat⟩ := hlost.stat timeout child
          exact lookup_backend_error honline hchild ha hstat
      | readdir n =>
          refine forall₄_congr fun path l hpath hl => ?_
          obtain ⟨text, hread⟩ := hlost.readDirectory timeout path
          exact readdir_backend_error honline hpath hl hread
      | read handle offset size =>
          refine forall₄_congr fun n path a d => forall₄_congr fun hfile hpath ha hserved => ?_
          obtain ⟨text, hstat⟩ := hlost.stat timeout path
          simp only [World.read, hfile, hmode, readContent]
          rcases getattr_backend_error honline hpath ha hstat with ⟨hget, hfresh⟩ | ⟨hget, hfresh⟩
          · rw [hget]
            exact iff_of_true (hserved.read ⟨rfl, rfl⟩ w.conn) hfresh
          · rw [show w.getattr (S.backend timeout) n =
              (.error (.remoteBackend text), (w.getattr (S.backend timeout) n).2) from
              Prod.ext hget rfl]
            simp [hfresh]
      | _ => exact Iff.rfl
  | _ => exact Iff.rfl

/-- **A lost connection.**  At every step of every history of a mount over SFTP: while the
connection is gone, an on-demand mount serves what it has cached exactly where it would not have
asked the server at all. -/
theorem lost_connection_iff {σ φ : Type} (S : SftpSession σ φ) (timeout : ℕ) (config : Config)
    (disk : Disk) (conn : Conn σ) (es : List (Event σ)) :
    AllSteps (step (S.backend timeout))
      (fun w e => w.config.cacheMode = .onDemand → S.Lost w.conn.remote →
        (ServesCached (S.backend timeout) w e ↔ AsksFresh w e))
      (World.new config disk conn) es :=
  allSteps_mono (fun _ e _ hmode hlost => servesCached_iff hmode hlost e)
    (allSteps_visits (step (S.backend timeout)) (World.new config disk conn) es)

/-- The error of a request on a closed connection. -/
def brokenPipe : SftpError := .other "I/O: broken pipe"

/-- A session that has one file everywhere while it is connected. -/
def plainSession : SftpSession Bool Unit where
  metadata _ up := (if up then .ok { size := some 3 } else .error brokenPipe, up)
  readDir _ up := (if up then .ok [] else .error brokenPipe, up)
  openFile _ _ up := (if up then .ok () else .error brokenPipe, up)
  createDir _ up := (if up then .ok () else .error brokenPipe, up)
  setMetadata _ _ up := (if up then .ok () else .error brokenPipe, up)
  removeFile _ up := (if up then .ok () else .error brokenPipe, up)
  removeDir _ up := (if up then .ok () else .error brokenPipe, up)
  rename _ _ up := (if up then .ok () else .error brokenPipe, up)
  seek _ _ up := (.ok (), up)
  readFile _ _ up := (.ok [], up)
  writeAll _ _ up := (.ok (), up)
  flush _ up := (.ok (), up)
  fileType _ := .other
  timesOut _ := false
  cancel up := up

lemma plainSession_lost : plainSession.Lost false where
  metadata _ := ⟨brokenPipe, trivial, rfl⟩
  readDir _ := ⟨brokenPipe, trivial, rfl⟩
  openFile _ _ := ⟨brokenPipe, trivial, rfl⟩
  createDir _ := ⟨brokenPipe, trivial, rfl⟩
  setMetadata _ _ := ⟨brokenPipe, trivial, rfl⟩
  removeFile _ := ⟨brokenPipe, trivial, rfl⟩
  removeDir _ := ⟨brokenPipe, trivial, rfl⟩
  rename _ _ := ⟨brokenPipe, trivial, rfl⟩

/-- A mount that has cached the attributes of its root, and has lost the connection since then;
its time to live of one second is over. -/
def lostMount : World Bool :=
  run (step (plainSession.backend 30))
    (World.new ⟨.root, false, .onDemand, 10 ^ 9, 4⟩ Disk.empty ⟨true, 0, []⟩)
    [.call (.getattr .root), .external false, .tick (2 * 10 ^ 9)]

/-- The cached attributes are not served. -/
theorem lost_connection_not_served :
    lostMount.config.cacheMode = .onDemand ∧ plainSession.Lost lostMount.conn.remote ∧
    (lostMount.store.getAttrs .root).isSome ∧
    (lostMount.getattr (plainSession.backend 30) .root).1 =
      .error (.remoteBackend "sftp error: I/O: broken pipe") ∧
    ¬ ServesCached (plainSession.backend 30) lostMount (.call (.getattr .root)) := by
  have hanswer : (lostMount.getattr (plainSession.backend 30) .root).1 =
      .error (.remoteBackend "sftp error: I/O: broken pipe") := by decide
  refine ⟨rfl, plainSession_lost, rfl, hanswer, fun h => ?_⟩
  have hserved := h .root _ rfl rfl
  rw [hanswer] at hserved
  cases hserved

end World

end CacheShfs
