import CacheShfs.Linux.Fs
import CacheShfs.Sftp.Contract

/-!
# Times across the whole stack

A modification time that the kernel sets goes from nanoseconds to whole seconds in the adapter, from
there to 32 bits in the transport, and comes back from the server the same way.  `set_time_iff` says
exactly which times come back as they were set.
-/

namespace CacheShfs

open LinuxFilesystem

/-- The time in the reply: the seconds, cut towards the epoch, in 32 bits. -/
def carriedTime (time : Int) : Int :=
  (if 0 ≤ time then time / nanosPerSecond else -(-time / nanosPerSecond)) % 2 ^ 32 * nanosPerSecond

/-- What the server is told of a time. -/
lemma toNat_asU32OfInt (x : Int) : ((asU32OfInt x).toNat : Int) = x % 2 ^ 32 := by
  have hnonneg : 0 ≤ x % 2 ^ 32 := Int.emod_nonneg _ (by decide)
  have hlt : x % 2 ^ 32 < 2 ^ 32 := Int.emod_lt_of_pos _ (by decide)
  rw [asU32OfInt, UInt32.toNat_ofNat_of_lt']
  · exact Int.toNat_of_nonneg hnonneg
  · show (x % 2 ^ 32).toNat < 2 ^ 32
    omega

/-- The times that are carried as they are: whole seconds from 1970 until 32 bits are full. -/
lemma carriedTime_eq_iff (time : Int) :
    carriedTime time = time ↔ ∃ seconds, 0 ≤ seconds ∧ seconds < 2 ^ 32 ∧
      time = seconds * nanosPerSecond := by
  have hpos : (0 : Int) < nanosPerSecond := by decide
  constructor
  · intro h
    refine ⟨_, Int.emod_nonneg _ (by decide), Int.emod_lt_of_pos _ (by decide), h.symm⟩
  · rintro ⟨seconds, hnonneg, hlt, rfl⟩
    have hsign : 0 ≤ seconds * nanosPerSecond := Int.mul_nonneg hnonneg hpos.le
    rw [carriedTime, if_pos hsign, Int.mul_ediv_cancel _ hpos.ne', Int.emod_eq_of_lt hnonneg hlt]

variable {σ φ : Type} {S : SftpSession σ φ} {view : σ → Tree} {cursor : φ → σ → Option Cursor}

/-- The attributes that a `setattr` of a file over the transport answers with. -/
lemma setattr_answers (hS : Server S view cursor) {p : RemotePath} {set : SetAttributes} {s : σ}
    {attributes : FileAttributes} {f : Bytes} {m : Option Int}
    (hfile : view s p.asStr = some (.file f m)) (h : (S.setattr p set s).1 = .ok attributes) :
    attributes.size.toNat = (resize f set.size).length ∧
      ∀ seconds, set.modifiedUnixSeconds = some seconds →
        attributes.modifiedUnixSeconds = some (seconds % 2 ^ 32) := by
  obtain ⟨node, node', hnode, hset, hview⟩ := (SftpSession.makes_setattr hS p set s).1 attributes h
  obtain ⟨found, hfound, hdescribes⟩ := SftpSession.describes_after hS h
  obtain rfl : node = .file f m := Option.some.inj (hnode.symm.trans hfile)
  obtain ⟨m', rfl, hmtime⟩ := hset
  rw [SftpSession.eq_of_update hview hfound] at hdescribes
  obtain ⟨-, hsize, htime⟩ := hdescribes
  refine ⟨hsize, fun seconds hseconds => ?_⟩
  have hset : (setAttributes set).mtime = some (asU32OfInt seconds) := by
    rw [setAttributes, hseconds]
    rfl
  rw [htime, hmtime _ hset, toNat_asU32OfInt]

/-- A `setattr` that succeeds answers what the remote does. -/
lemma setattr_ok {ρ : Type} {R : RemoteFilesystem ρ} {w w' : World ρ} {node : NodeId}
    {set : SetAttributes} {p : RemotePath} {metadata : FileMetadata}
    (hpath : w.state.pathOf node = .ok p) (h : w.setattr R node set = (.ok metadata, w')) :
    ∃ attributes conn, w.conn.setattr R p set = (.ok attributes, conn) ∧
      metadata = ⟨node, attributes⟩ := by
  rw [World.setattr, hpath] at h
  cases hwritable : w.ensureWritable with
  | error e =>
      rw [hwritable] at h
      cases h
  | ok _ =>
      rw [hwritable] at h
      cases hcall : w.conn.setattr R p set with
      | mk answer conn =>
          simp only [hcall] at h
          cases answer with
          | error e => cases h
          | ok attributes =>
              cases h
              exact ⟨attributes, conn, rfl, rfl⟩

/-- **A time that the kernel sets comes back exactly if it is a whole number of seconds that 32 bits
hold.**  Any other time comes back as another one: a fraction of a second is cut off, and a time
before 1970 or after the 32 bits are full is taken modulo their range.  A size that is set with it
comes back as it is. -/
theorem set_time_iff (hS : Server S view cursor) (timeout : ℕ) (owner : LinuxOwner)
    {systemNow : Int} {w w' : World σ} {ino : NodeId} {mode : Option UInt32}
    {size : Option UInt64} {atime : Option TimeOrNow} {time : Int} {p : RemotePath}
    (hpath : w.state.pathOf ino = .ok p) {f : Bytes} {m : Option Int}
    (hfile : view w.conn.remote p.asStr = some (.file f m)) {attr : FileAttr}
    (hreply : handle (S.backend timeout) owner systemNow w
      (.setattr ino mode size atime (some (.specificTime time))) = (.attr attr, w')) :
    attr.mtime = carriedTime time ∧
      (attr.mtime = time ↔ ∃ seconds, 0 ≤ seconds ∧ seconds < 2 ^ 32 ∧
        time = seconds * nanosPerSecond) ∧
      ∀ n, size = some n → attr.size = n := by
  suffices h : attr.mtime = carriedTime time ∧ ∀ n, size = some n → attr.size = n by
    rw [h.1]
    exact ⟨rfl, carriedTime_eq_iff time, h.2⟩
  set attributes : SetAttributes :=
    { size := size
      mode := mode
      accessedUnixSeconds := timeOrNow systemNow atime
      modifiedUnixSeconds := unixSeconds time } with hattributes
  have hset : ∃ answer conn, w.conn.setattr (S.backend timeout) p attributes = (.ok answer, conn) ∧
      attr = fileAttr owner ⟨ino, answer⟩ := by
    have hanswer : FuseReply.ofResult (fun metadata => .attr (fileAttr owner metadata))
        (w.setattr (S.backend timeout) ino attributes).1 = .attr attr := congrArg Prod.fst hreply
    cases hresult : w.setattr (S.backend timeout) ino attributes with
    | mk answer w₁ =>
        rw [hresult] at hanswer
        cases answer with
        | error e => cases hanswer
        | ok metadata =>
            obtain ⟨answer, conn, hcall, rfl⟩ := setattr_ok hpath hresult
            exact ⟨answer, conn, hcall, (FuseReply.attr.inj hanswer).symm⟩
  obtain ⟨answer, conn, hcall, rfl⟩ := hset
  obtain ⟨hsize, htime⟩ := setattr_answers hS hfile (Conn.setattr_eq hcall).1
  constructor
  · have hseconds : attributes.modifiedUnixSeconds = some
        (if 0 ≤ time then time / nanosPerSecond else -(-time / nanosPerSecond)) := by
      rw [hattributes, unixSeconds]
      split <;> rfl
    show unixTime answer.modifiedUnixSeconds = carriedTime time
    rw [htime _ hseconds]
    rfl
  · rintro n rfl
    have hresize : (resize f (some n)).length = n.toNat := by
      rw [resize, List.length_append, List.length_take, List.length_replicate]
      omega
    exact UInt64.toNat_inj.mp (hsize.trans hresize)

/-! The file `/s` of a served tree is looked up, and its time is set to one and a half seconds. -/

/-- A mount of the sample server that has looked up `/s`. -/
def servedMount : World Served :=
  ((World.new ⟨.root, false, .onDemand, 5 * 10 ^ 9, 4⟩ Disk.empty ⟨Served.sample, 0, []⟩).lookup
    (Served.session.backend 30) NodeId.root ['s']).2

/-- What the kernel is told. -/
def servedAttr : FileAttr :=
  fileAttr ⟨1000, 1000⟩ ⟨⟨2⟩, ⟨.file, 3, 0o100644, 0, 0, some 1, none, none⟩⟩

theorem set_time_iff_example :
    servedAttr.mtime = 10 ^ 9 ∧
      (servedAttr.mtime = 1500000000 ↔ ∃ seconds, 0 ≤ seconds ∧ seconds < 2 ^ 32 ∧
        1500000000 = seconds * nanosPerSecond) := by
  have hpath : servedMount.state.pathOf ⟨2⟩ = .ok SftpSession.samplePath := rfl
  have hfile : servedMount.conn.remote.view SftpSession.samplePath.asStr =
      some (.file [7, 8, 9] none) := rfl
  have hreply : (handle (Served.session.backend 30) ⟨1000, 1000⟩ 0 servedMount
      (.setattr ⟨2⟩ none none none (some (.specificTime 1500000000)))).1 = .attr servedAttr := rfl
  have h := set_time_iff Served.server 30 ⟨1000, 1000⟩ hpath hfile (Prod.ext hreply rfl)
  exact ⟨rfl, h.2.1⟩

end CacheShfs
