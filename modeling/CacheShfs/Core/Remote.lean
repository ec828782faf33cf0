import CacheShfs.Core.Path

/-!
# The transport, as the cache sees it

`RemoteFilesystem` is the trait of `crates/cacheshfs-core/src/lib.rs` that transports
implement.  The implementation lies outside the core, so it is a parameter: a value of
`RemoteFilesystem ρ` gives, for an arbitrary type `ρ` of remote states, what each call answers
and what it does to the remote.  Short reads, failures and concurrent changes on the server
are all behaviours of such a value; nothing is assumed of it here.

`Conn ρ` is one connection: the remote's state, the clock (`Instant::now`, in nanoseconds), and
the calls made so far with their answers, newest first.  The call log is history, not program
state: no modelled function reads it.  It is there to say what the cache has been told, and
when.
-/

namespace CacheShfs

/-- `trait RemoteFilesystem`, with the remote's state made explicit. -/
structure RemoteFilesystem (ρ : Type) where
  stat : RemotePath → ρ → Except Error FileAttributes × ρ
  readDir : RemotePath → ρ → Except Error (List RemoteDirectoryEntry) × ρ
  read : RemotePath → ℕ → ℕ → ρ → Except Error Bytes × ρ
  write : RemotePath → UInt64 → Bytes → ρ → Except Error UInt32 × ρ
  create : RemotePath → UInt32 → ρ → Except Error FileAttributes × ρ
  mkdir : RemotePath → UInt32 → ρ → Except Error FileAttributes × ρ
  unlink : RemotePath → ρ → Except Error Unit × ρ
  rmdir : RemotePath → ρ → Except Error Unit × ρ
  rename : RemotePath → RemotePath → ρ → Except Error Unit × ρ
  setattr : RemotePath → SetAttributes → ρ → Except Error FileAttributes × ρ

/-- A remote answers a read with no more bytes than it is asked for. -/
def RemoteFilesystem.Bounded {ρ : Type} (R : RemoteFilesystem ρ) : Prop :=
  ∀ path offset size r data, (R.read path offset size r).1 = .ok data → data.length ≤ size

/-- One call to the remote together with its answer. -/
inductive RemoteCall
  | stat (path : RemotePath) (answer : Except Error FileAttributes)
  | readDir (path : RemotePath) (answer : Except Error (List RemoteDirectoryEntry))
  | read (path : RemotePath) (offset size : ℕ) (answer : Except Error Bytes)
  | write (path : RemotePath) (offset : UInt64) (data : Bytes) (answer : Except Error UInt32)
  | create (path : RemotePath) (mode : UInt32) (answer : Except Error FileAttributes)
  | mkdir (path : RemotePath) (mode : UInt32) (answer : Except Error FileAttributes)
  | unlink (path : RemotePath) (answer : Except Error Unit)
  | rmdir (path : RemotePath) (answer : Except Error Unit)
  | rename (src dst : RemotePath) (answer : Except Error Unit)
  | setattr (path : RemotePath) (attributes : SetAttributes)
      (answer : Except Error FileAttributes)

/-- The path a call is about; of a rename, the path it moves. -/
def RemoteCall.path : RemoteCall → RemotePath
  | .stat path _ | .readDir path _ | .read path _ _ _ | .write path _ _ _ | .create path _ _
  | .mkdir path _ _ | .unlink path _ | .rmdir path _ | .rename path _ _ | .setattr path _ _ => path

/-- The connection to a remote: its state, the clock and the calls made so far. -/
structure Conn (ρ : Type) where
  remote : ρ
  now : ℕ
  /-- The calls made so far with the time of their answer, newest first. -/
  log : List (ℕ × RemoteCall)

namespace Conn

variable {ρ : Type} (R : RemoteFilesystem ρ) (c : Conn ρ)

/-- Append an answered call to the history and move the remote on. -/
def record (call : RemoteCall) (remote : ρ) : Conn ρ :=
  { c with remote := remote, log := (c.now, call) :: c.log }

@[simp] lemma record_now (call : RemoteCall) (r : ρ) : (c.record call r).now = c.now := rfl

@[simp] lemma record_remote (call : RemoteCall) (r : ρ) : (c.record call r).remote = r := rfl

@[simp] lemma record_log (call : RemoteCall) (r : ρ) :
    (c.record call r).log = (c.now, call) :: c.log := rfl

def stat (path : RemotePath) : Except Error FileAttributes × Conn ρ :=
  let (answer, remote) := R.stat path c.remote
  (answer, c.record (.stat path answer) remote)

def readDir (path : RemotePath) : Except Error (List RemoteDirectoryEntry) × Conn ρ :=
  let (answer, remote) := R.readDir path c.remote
  (answer, c.record (.readDir path answer) remote)

def read (path : RemotePath) (offset size : ℕ) : Except Error Bytes × Conn ρ :=
  let (answer, remote) := R.read path offset size c.remote
  (answer, c.record (.read path offset size answer) remote)

def write (path : RemotePath) (offset : UInt64) (data : Bytes) :
    Except Error UInt32 × Conn ρ :=
  let (answer, remote) := R.write path offset data c.remote
  (answer, c.record (.write path offset data answer) remote)

def create (path : RemotePath) (mode : UInt32) : Except Error FileAttributes × Conn ρ :=
  let (answer, remote) := R.create path mode c.remote
  (answer, c.record (.create path mode answer) remote)

def mkdir (path : RemotePath) (mode : UInt32) : Except Error FileAttributes × Conn ρ :=
  let (answer, remote) := R.mkdir path mode c.remote
  (answer, c.record (.mkdir path mode answer) remote)

def unlink (path : RemotePath) : Except Error Unit × Conn ρ :=
  let (answer, remote) := R.unlink path c.remote
  (answer, c.record (.unlink path answer) remote)

def rmdir (path : RemotePath) : Except Error Unit × Conn ρ :=
  let (answer, remote) := R.rmdir path c.remote
  (answer, c.record (.rmdir path answer) remote)

def rename (src dst : RemotePath) : Except Error Unit × Conn ρ :=
  let (answer, remote) := R.rename src dst c.remote
  (answer, c.record (.rename src dst answer) remote)

def setattr (path : RemotePath) (attributes : SetAttributes) :
    Except Error FileAttributes × Conn ρ :=
  let (answer, remote) := R.setattr path attributes c.remote
  (answer, c.record (.setattr path attributes answer) remote)

/-! ## What a call leaves in the connection -/

section
variable {R c} {c' : Conn ρ}

lemma stat_eq {p : RemotePath} {a : Except Error FileAttributes}
    (h : c.stat R p = (a, c')) :
    (R.stat p c.remote).1 = a ∧ c' = c.record (.stat p a) (R.stat p c.remote).2 := by
  obtain ⟨rfl, rfl⟩ := Prod.mk.inj h
  exact ⟨rfl, rfl⟩

lemma readDir_eq {p : RemotePath} {a : Except Error (List RemoteDirectoryEntry)}
    (h : c.readDir R p = (a, c')) :
    (R.readDir p c.remote).1 = a ∧ c' = c.record (.readDir p a) (R.readDir p c.remote).2 := by
  obtain ⟨rfl, rfl⟩ := Prod.mk.inj h
  exact ⟨rfl, rfl⟩

lemma read_eq {p : RemotePath} {o n : ℕ} {a : Except Error Bytes} (h : c.read R p o n = (a, c')) :
    (R.read p o n c.remote).1 = a ∧ c' = c.record (.read p o n a) (R.read p o n c.remote).2 := by
  obtain ⟨rfl, rfl⟩ := Prod.mk.inj h
  exact ⟨rfl, rfl⟩

lemma write_eq {p : RemotePath} {o : UInt64} {d : Bytes} {a : Except Error UInt32}
    (h : c.write R p o d = (a, c')) :
    (R.write p o d c.remote).1 = a ∧ c' = c.record (.write p o d a) (R.write p o d c.remote).2 := by
  obtain ⟨rfl, rfl⟩ := Prod.mk.inj h
  exact ⟨rfl, rfl⟩

lemma create_eq {p : RemotePath} {m : UInt32} {a : Except Error FileAttributes}
    (h : c.create R p m = (a, c')) :
    (R.create p m c.remote).1 = a ∧ c' = c.record (.create p m a) (R.create p m c.remote).2 := by
  obtain ⟨rfl, rfl⟩ := Prod.mk.inj h
  exact ⟨rfl, rfl⟩

lemma mkdir_eq {p : RemotePath} {m : UInt32} {a : Except Error FileAttributes}
    (h : c.mkdir R p m = (a, c')) :
    (R.mkdir p m c.remote).1 = a ∧ c' = c.record (.mkdir p m a) (R.mkdir p m c.remote).2 := by
  obtain ⟨rfl, rfl⟩ := Prod.mk.inj h
  exact ⟨rfl, rfl⟩

lemma unlink_eq {p : RemotePath} {a : Except Error Unit}
    (h : c.unlink R p = (a, c')) :
    (R.unlink p c.remote).1 = a ∧ c' = c.record (.unlink p a) (R.unlink p c.remote).2 := by
  obtain ⟨rfl, rfl⟩ := Prod.mk.inj h
  exact ⟨rfl, rfl⟩

lemma rmdir_eq {p : RemotePath} {a : Except Error Unit}
    (h : c.rmdir R p = (a, c')) :
    (R.rmdir p c.remote).1 = a ∧ c' = c.record (.rmdir p a) (R.rmdir p c.remote).2 := by
  obtain ⟨rfl, rfl⟩ := Prod.mk.inj h
  exact ⟨rfl, rfl⟩

lemma rename_eq {p q : RemotePath} {a : Except Error Unit}
    (h : c.rename R p q = (a, c')) :
    (R.rename p q c.remote).1 = a ∧ c' = c.record (.rename p q a) (R.rename p q c.remote).2 := by
  obtain ⟨rfl, rfl⟩ := Prod.mk.inj h
  exact ⟨rfl, rfl⟩

lemma setattr_eq {p : RemotePath} {s : SetAttributes} {a : Except Error FileAttributes}
    (h : c.setattr R p s = (a, c')) :
    (R.setattr p s c.remote).1 = a ∧ c' = c.record (.setattr p s a) (R.setattr p s c.remote).2 := by
  obtain ⟨rfl, rfl⟩ := Prod.mk.inj h
  exact ⟨rfl, rfl⟩

end

/-! ## The calls between two connections -/

section
variable {P : RemoteCall → Prop} {c c' : Conn ρ}

/-- The history of `c'` continues that of `c`. -/
def Extends (c c' : Conn ρ) : Prop := ∃ calls, c'.log = calls ++ c.log

lemma Extends.refl (c : Conn ρ) : Extends c c := ⟨[], rfl⟩

lemma Extends.trans {c'' : Conn ρ} (h : Extends c c') (h' : Extends c' c'') : Extends c c'' := by
  obtain ⟨calls, hlog⟩ := h
  obtain ⟨calls', hlog'⟩ := h'
  exact ⟨calls' ++ calls, by rw [hlog', hlog, List.append_assoc]⟩

/-- Calls that meet a condition have been made. -/
def Asked (P : RemoteCall → Prop) (c c' : Conn ρ) : Prop :=
  ∃ calls, c'.log = calls ++ c.log ∧ ∀ x ∈ calls, P x.2

lemma Asked.refl (c : Conn ρ) : Asked P c c := ⟨[], rfl, by simp⟩

lemma Asked.trans {c'' : Conn ρ} (h : Asked P c c') (h' : Asked P c' c'') : Asked P c c'' := by
  obtain ⟨calls, hlog, hcalls⟩ := h
  obtain ⟨calls', hlog', hcalls'⟩ := h'
  refine ⟨calls' ++ calls, by rw [hlog', hlog, List.append_assoc], fun x hx => ?_⟩
  rcases List.mem_append.mp hx with hx | hx
  · exact hcalls' x hx
  · exact hcalls x hx

lemma Asked.mono {Q : RemoteCall → Prop} (h : Asked P c c') (himp : ∀ call, P call → Q call) :
    Asked Q c c' := by
  obtain ⟨calls, hlog, hcalls⟩ := h
  exact ⟨calls, hlog, fun x hx => himp _ (hcalls x hx)⟩

lemma asked_record (c : Conn ρ) {call : RemoteCall} (r : ρ) (h : P call) :
    Asked P c (c.record call r) :=
  ⟨[(c.now, call)], rfl, fun x hx => by rwa [List.mem_singleton.mp hx]⟩

/-- The calls between two connections are those of the history. -/
lemma asked_iff {calls : List (ℕ × RemoteCall)} (hlog : c'.log = calls ++ c.log) :
    Asked P c c' ↔ ∀ x ∈ calls, P x.2 := by
  refine ⟨fun ⟨calls', hlog', hall⟩ => ?_, fun h => ⟨calls, hlog, h⟩⟩
  rwa [← List.append_cancel_right (hlog'.symm.trans hlog)]

lemma asked_record_iff {call : RemoteCall} {r : ρ} : Asked P c (c.record call r) ↔ P call := by
  have hlog : (c.record call r).log = [(c.now, call)] ++ c.log := rfl
  rw [asked_iff hlog]
  simp

lemma asked_trans_iff {c'' : Conn ρ} (h : Extends c c') (h' : Extends c' c'') :
    Asked P c c'' ↔ Asked P c c' ∧ Asked P c' c'' := by
  obtain ⟨calls, hlog⟩ := h
  obtain ⟨calls', hlog'⟩ := h'
  have hlog'' : c''.log = (calls' ++ calls) ++ c.log := by
    rw [hlog', hlog, List.append_assoc]
  rw [asked_iff hlog'', asked_iff hlog, asked_iff hlog', and_comm]
  simp only [List.forall_mem_append]

end

end Conn

end CacheShfs
