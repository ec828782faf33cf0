import CacheShfs.Cli.Config
import CacheShfs.Vfs.Apart
import CacheShfs.Vfs.Outage

/-!
# Mounts without a cache directory of their own

Without `--cache-dir` every invocation by one user works on the same directory, and the index in
it is keyed by the path alone: the target of the remote is in no key.  So two mounts of different
targets share what they have cached wherever their paths coincide.

The second mount answers as if the first had never run where the first has left alone what the
directory has for the paths of the second (`isolated_iff`).
-/

namespace CacheShfs

open Machine

namespace Cli

variable {ρ : Type}

/-! ## What `run` mounts -/

lemma toMountConfig_ok {cli : Cli} {env : Env} {config : MountConfig}
    (h : cli.toMountConfig env = .ok config) :
    parseRemote cli.remote = .ok config.remote ∧
      config.cacheDir = cli.cacheDir.getD (defaultCacheDir env) ∧
      isInside config.cacheDir cli.mountpoint = false := by
  unfold toMountConfig at h
  split at h
  · cases h
  · next remote hremote =>
      simp only at h
      split at h
      · cases h
      · next hinside =>
          split at h
          · cases h
          · cases h
            exact ⟨hremote, rfl, by simpa using hinside⟩

lemma remotePath_new_ok {path : Str} {root : RemotePath} (h : RemotePath.new path = .ok root) :
    root.asStr = path := by
  unfold RemotePath.new at h
  split at h
  · cases h
    rfl
  · cases h

/-- A run that mounts does so whatever is in the cache directory. -/
lemma run_ok {cli : Cli} {env : Env} {files : Str → Disk} {options : Except String Unit}
    {connected : Except Error Unit} {conn : Conn ρ} {config : MountConfig} {w : World ρ}
    (h : cli.run env files options connected conn = .ok (config, w)) :
    cli.toMountConfig env = .ok config ∧ w = World.new w.config (files config.cacheDir) conn ∧
      w.config.root.asStr = config.remote.root ∧
      ∀ files', cli.run env files' options connected conn =
        .ok (config, World.new w.config (files' config.cacheDir) conn) := by
  unfold run at h
  split at h
  · cases h
  · next config hconfig =>
      split at h
      · cases h
      · next root hroot =>
          split at h
          · cases h
          · next ttl httl =>
              split at h
              · cases h
              · next hconnected =>
                  cases h
                  exact ⟨hconfig, rfl, remotePath_new_ok hroot, fun files' => by
                    simp only [run, hconfig, hroot, httl, hconnected]
                    rfl⟩

/-! ## Two invocations in one environment -/

/-- The directories after a session: its own one has changed. -/
def filesAfter (files : Str → Disk) (config : MountConfig) (w : World ρ) : Str → Disk :=
  Function.update files config.cacheDir w.store.disk

/-- The mount that `cli` makes answers over `files'` as it does over `files`, whatever its server
does and whatever is called. -/
def Unaffected (env : Env) (files files' : Str → Disk) (cli : Cli) : Prop :=
  ∀ (ρ : Type) (R : RemoteFilesystem ρ) (conn : Conn ρ) (options : Except String Unit)
    (connected : Except Error Unit) (config : MountConfig) (w : World ρ),
    cli.run env files options connected conn = .ok (config, w) →
    ∃ w', cli.run env files' options connected conn = .ok (config, w') ∧
      ∀ es, (∀ e ∈ es, World.InSession e) →
        w'.replies (cli.filesystem R) es = w.replies (cli.filesystem R) es

/-- So do all mounts of `root` at another target that are made without `--cache-dir`. -/
def Isolated (env : Env) (files files' : Str → Disk) (target : Str) (root : RemotePath) : Prop :=
  ∀ cli : Cli, cli.cacheDir = none → ∀ remote, parseRemote cli.remote = .ok remote →
    remote.target ≠ target → remote.root = root.asStr → Unaffected env files files' cli

section
variable {env : Env} {files : Str → Disk} {cli : Cli} {config : MountConfig}

lemma cacheDir_of_none (hdir : cli.cacheDir = none) (hconfig : cli.toMountConfig env = .ok config) :
    config.cacheDir = defaultCacheDir env := by
  rw [(toMountConfig_ok hconfig).2.1, hdir]
  rfl

/-- A directory that is the same for the paths of a root isolates its mounts. -/
lemma isolated_of_sameBelow {target : Str} {root : RemotePath} {after : Disk}
    (hleft : (files (defaultCacheDir env)).Left) (hleft' : after.Left)
    (hsame : Disk.SameBelow root.asStr (files (defaultCacheDir env)) after) :
    Isolated env files (Function.update files (defaultCacheDir env) after) target root := by
  intro cli hdir remote hremote _ hroot ρ R conn options connected config w hrun
  obtain ⟨hconfig, hw, hwroot, hfiles⟩ := run_ok hrun
  have hplace := cacheDir_of_none hdir hconfig
  have hspec := (toMountConfig_ok hconfig).1
  rw [hremote] at hspec
  cases hspec
  refine ⟨_, hfiles _, fun es hes => ?_⟩
  rw [hw, hplace, Function.update_self]
  refine World.replies_eq_of_sameBelow w.config hleft hleft' ?_ conn hes
  rw [hwroot, hroot]
  exact hsame

/-- A target that is not this one. -/
def otherTarget (target : Str) : Str := if target = ['a'] then ['b'] else ['a']

lemma otherTarget_ne (target : Str) : otherTarget target ≠ target := by
  unfold otherTarget
  split
  · next h => simp [h]
  · next h => exact fun heq => h heq.symm

lemma parseRemote_append {target root : Str} (hcolon : ':' ∉ target) (htarget : target ≠ [])
    (hroot : root ≠ []) : parseRemote (target ++ ':' :: root) = .ok ⟨target, root⟩ := by
  have hall : ∀ c ∈ target, decide (c ≠ ':') = true := fun c hc => by
    simp only [ne_eq, decide_eq_true_eq]
    rintro rfl
    exact hcolon hc
  have htake : (target ++ ':' :: root).takeWhile (· ≠ ':') = target := by
    rw [List.takeWhile_append_of_pos hall]
    simp
  have hdrop : (target ++ ':' :: root).dropWhile (· ≠ ':') = ':' :: root := by
    rw [List.dropWhile_append_of_pos hall]
    simp
  simp only [parseRemote, htake, hdrop, List.tail_cons, htarget, hroot, if_false]
  simp

/-- An invocation for a root at another target, with a metadata TTL of zero. -/
def distrustful (mountpoint target : Str) (root : RemotePath) : Cli :=
  { remote := otherTarget target ++ ':' :: root.asStr
    mountpoint := mountpoint
    metadataTtl := some ['0'] }

/-- The mount that it makes. -/
def distrustfulConfig (root : RemotePath) : Config :=
  ⟨root, false, .onDemand, 0, UInt64.ofNat defaultCacheChunkSize⟩

lemma parseRemote_distrustful (mountpoint target : Str) (root : RemotePath) :
    parseRemote (distrustful mountpoint target root).remote =
      .ok ⟨otherTarget target, root.asStr⟩ := by
  refine parseRemote_append ?_ ?_ root.valid.1
  · unfold otherTarget
    split <;> decide
  · unfold otherTarget
    split <;> decide

lemma run_distrustful {mountpoint : Str} (target : Str) (root : RemotePath)
    (hinside : isInside (defaultCacheDir env) mountpoint = false) (conn : Conn ρ) :
    ∃ config : MountConfig, config.cacheDir = defaultCacheDir env ∧ ∀ files,
      (distrustful mountpoint target root).run env files (.ok ()) (.ok ()) conn =
        .ok (config, World.new (distrustfulConfig root) (files (defaultCacheDir env)) conn) := by
  have hroot : RemotePath.new root.asStr = .ok root := by
    rw [RemotePath.new, dif_pos root.valid]
  have httl : (distrustful mountpoint target root).metadataTtlDuration = .ok 0 :=
    show parseDuration ['0'] = .ok 0 by decide
  refine ⟨⟨⟨otherTarget target, root.asStr⟩, mountpoint, defaultCacheDir env, .onDemand,
    UInt64.ofNat defaultCacheChunkSize, false⟩, rfl, fun files => ?_⟩
  have hconfig : (distrustful mountpoint target root).toMountConfig env =
      .ok ⟨⟨otherTarget target, root.asStr⟩, mountpoint, defaultCacheDir env, .onDemand,
        UInt64.ofNat defaultCacheChunkSize, false⟩ := by
    have hdir : (distrustful mountpoint target root).cacheDir.getD (defaultCacheDir env) =
        defaultCacheDir env := rfl
    have hpoint : (distrustful mountpoint target root).mountpoint = mountpoint := rfl
    have hchunk : (distrustful mountpoint target root).cacheChunkSize = none := rfl
    simp only [toMountConfig, parseRemote_distrustful, hdir, hpoint, hchunk, hinside,
      Bool.false_eq_true, if_false]
    rfl
  have honline : (CacheMode.onDemand = CacheMode.offline) = False := by simp
  simp only [run, hconfig, hroot, httl, honline, if_false, connection]
  rfl

/-- An isolated root whose paths the directory had nothing for, has nothing afterwards. -/
lemma bare_of_isolated {target : Str} {root : RemotePath} {mountpoint : Str} {after : Disk}
    (hinside : isInside (defaultCacheDir env) mountpoint = false)
    (hbare : (files (defaultCacheDir env)).Bare root.asStr)
    (h : Isolated env files (Function.update files (defaultCacheDir env) after) target root) :
    after.Bare root.asStr := by
  obtain ⟨config, -, hrun⟩ := run_distrustful target root hinside World.firstConn
  have hmode : (distrustful mountpoint target root).filesystem intermittent = intermittent :=
    if_neg (by simp [distrustful])
  have hsame : World.SameReplies (distrustfulConfig root) (files (defaultCacheDir env)) after := by
    intro es hes
    obtain ⟨w', hw', hreplies⟩ := h (distrustful mountpoint target root) rfl _
      (parseRemote_distrustful mountpoint target root) (otherTarget_ne target) rfl Bool intermittent
      World.firstConn (.ok ()) (.ok ()) config _ (hrun files)
    rw [hrun, Function.update_self] at hw'
    cases hw'
    have hall := hreplies es hes
    rwa [hmode] at hall
  exact hsame.bare ⟨rfl, rfl, rfl⟩ hbare

end

/-- **Mounts in one environment.**  A mount without `--cache-dir` has run on a directory that
nothing but mounts had written.  Every later mount of `root` at another target answers as if it had
not, when it has left the directory as it was for the paths of `root`; and where the directory had
nothing for these paths before, then only. -/
theorem isolated_iff {env : Env} {files : Str → Disk} {cli : Cli} {config : MountConfig}
    {options : Except String Unit} {connected : Except Error Unit} {conn : Conn ρ} {w : World ρ}
    (hleft : (files (defaultCacheDir env)).Left) (hdir : cli.cacheDir = none)
    (hrun : cli.run env files options connected conn = .ok (config, w)) (R : RemoteFilesystem ρ)
    (es : List (Event ρ)) (root : RemotePath) :
    let after := Machine.run (World.step (cli.filesystem R)) w es
    let Same := Disk.SameBelow root.asStr (files config.cacheDir) after.store.disk
    let Alone := Isolated env files (filesAfter files config after) config.remote.target root
    (Same → Alone) ∧ ((files config.cacheDir).Bare root.asStr → (Alone ↔ Same)) := by
  intro after Same Alone
  obtain ⟨hconfig, hw, -, -⟩ := run_ok hrun
  have hplace := cacheDir_of_none hdir hconfig
  have hinside := (toMountConfig_ok hconfig).2.2
  rw [hplace] at hinside
  have hafter : after.store.disk.Left := by
    have hend := Disk.Left.mounted (R := cli.filesystem R) hleft w.config conn es
    rw [← hplace, ← hw] at hend
    exact hend
  have hfiles : filesAfter files config after =
      Function.update files (defaultCacheDir env) after.store.disk := by
    rw [filesAfter, hplace]
  have hsufficient : Same → Alone := fun hsame => by
    show Isolated _ _ _ _ _
    rw [hfiles]
    refine isolated_of_sameBelow hleft hafter ?_
    rw [← hplace]
    exact hsame
  refine ⟨hsufficient, fun hbare => ⟨fun halone => ?_, hsufficient⟩⟩
  have hbefore : (files (defaultCacheDir env)).Bare root.asStr := hplace ▸ hbare
  have halone' : Isolated env files
      (Function.update files (defaultCacheDir env) after.store.disk) config.remote.target root := by
    rw [← hfiles]
    exact halone
  exact hbare.sameBelow (bare_of_isolated hinside hbefore halone')

/-- **Roots that lie apart.**  A mount without `--cache-dir` leaves the mounts of every root alone
that lies neither at or below its own nor above it, at whatever target. -/
theorem isolated_of_apart {env : Env} {files : Str → Disk} {cli : Cli} {config : MountConfig}
    {options : Except String Unit} {connected : Except Error Unit} {conn : Conn ρ} {w : World ρ}
    (hleft : (files (defaultCacheDir env)).Left) (hdir : cli.cacheDir = none)
    (hrun : cli.run env files options connected conn = .ok (config, w)) (R : RemoteFilesystem ρ)
    {es : List (Event ρ)} (hes : ∀ e ∈ es, World.InSession e) {root : RemotePath}
    (hapart : Apart config.remote.root root.asStr) :
    Isolated env files (filesAfter files config (Machine.run (World.step (cli.filesystem R)) w es))
      config.remote.target root := by
  obtain ⟨hconfig, hw, hroot, -⟩ := run_ok hrun
  have hplace := cacheDir_of_none hdir hconfig
  rw [hplace] at hw
  rw [← hroot] at hapart
  have hafter := Disk.Left.mounted (R := cli.filesystem R) hleft w.config conn es
  have hsame := Disk.sameBelow_of_apart (R := cli.filesystem R) w.config hleft conn hes hapart
  rw [← hw] at hafter hsame
  rw [filesAfter, hplace]
  exact isolated_of_sameBelow hleft hafter hsame

/-! ## One home directory, two servers -/

/-- A user without cache variables. -/
def homeOnly : Env := ⟨none, none, some ['/', 'h']⟩

/-- No cache directory has been written. -/
def unwritten : Str → Disk := fun _ => Disk.empty

/-- The root of the server `a`, mounted on `/m`. -/
def ofServerA : Cli := { remote := ['a', ':', '/'], mountpoint := ['/', 'm'] }

/-- The root of the server `b`, mounted on `/m`, as it was cached. -/
def ofServerB (mode : CacheModeArg) : Cli :=
  { remote := ['b', ':', '/'], mountpoint := ['/', 'm'], cacheMode := mode }

/-- What `run` mounts for `/` on the server `target`. -/
def rootConfig (target : Str) (mode : CacheMode) : MountConfig :=
  ⟨⟨target, ['/']⟩, ['/', 'm'], defaultCacheDir homeOnly, mode,
    UInt64.ofNat defaultCacheChunkSize, false⟩

/-- The mount of `/` on the directory `disk`. -/
def rootMount (mode : CacheMode) (disk : Disk) (conn : Conn Memory) : World Memory :=
  World.new ⟨.root, false, mode, defaultMetadataTtl, UInt64.ofNat defaultCacheChunkSize⟩ disk conn

/-- The server `a` has a file `/a`. -/
def serverA : Conn Memory := ⟨World.sampleTree, 0, []⟩

/-- The server `b` has another one, of the same size and with no time either. -/
def serverB : Conn Memory :=
  ⟨Memory.empty.put ['/', 'a'] (.file [4, 5, 6] none) (by decide), 0, []⟩

/-- `/a` is looked up, opened and read. -/
def readA : List (Event Memory) :=
  [.call (.lookup .root ['a']), .call (.openFile ⟨2⟩ {}), .call (.read ⟨1⟩ 0 3)]

/-- The mount of the server `a` at its end. -/
def usedA : World Memory :=
  Machine.run (World.step (ofServerA.filesystem Memory.filesystem))
    (rootMount .onDemand Disk.empty serverA) readA

/-- The directories after the mount of the server `a`. -/
def afterA : Str → Disk := filesAfter unwritten (rootConfig ['a'] .onDemand) usedA

lemma run_ofServerA : ofServerA.run homeOnly unwritten (.ok ()) (.ok ()) serverA =
    .ok (rootConfig ['a'] .onDemand, rootMount .onDemand Disk.empty serverA) := by
  rfl

/-- The attributes of `/a` on both servers. -/
def threeBytes : FileAttributes := ⟨.file, 3, 0o644, 0, 0, none, none, none⟩

lemma run_ofServerB (mode : CacheModeArg) (files : Str → Disk) :
    (ofServerB mode).run homeOnly files (.ok ()) (.ok ()) serverB =
      .ok (rootConfig ['b'] mode.toCacheMode,
        rootMount mode.toCacheMode (files (defaultCacheDir homeOnly)) serverB) := by
  cases mode <;> rfl

/-- **One directory for two servers.**  The server `b` is mounted after the server `a`, over the
directory that both have by default.  Offline, where the file has never been cached from `b`, the
mount returns attributes and bytes of the server `a`.  Online it returns these bytes too, for a
file of its own that has others. -/
theorem cache_shared :
    ((rootMount .offline (unwritten (defaultCacheDir homeOnly)) serverB).replies
        ((ofServerB .offline).filesystem Memory.filesystem) readA =
          [.metadata (.error .notFound), .data (.error unknownHandle)] ∧
      (rootMount .offline (afterA (defaultCacheDir homeOnly)) serverB).replies
        ((ofServerB .offline).filesystem Memory.filesystem) readA =
          [.metadata (.ok ⟨⟨2⟩, threeBytes⟩), .data (.ok [1, 2, 3])]) ∧
    ((rootMount .onDemand (unwritten (defaultCacheDir homeOnly)) serverB).replies
        ((ofServerB .onDemand).filesystem Memory.filesystem) readA =
          [.metadata (.ok ⟨⟨2⟩, threeBytes⟩), .data (.ok [4, 5, 6])] ∧
      (rootMount .onDemand (afterA (defaultCacheDir homeOnly)) serverB).replies
        ((ofServerB .onDemand).filesystem Memory.filesystem) readA =
          [.metadata (.ok ⟨⟨2⟩, threeBytes⟩), .data (.ok [1, 2, 3])]) ∧
    ¬ Isolated homeOnly unwritten afterA ['a'] .root := by
  refine ⟨by decide, by decide, fun h => ?_⟩
  -- the offline mount of the server `b` is one of those that would be isolated
  obtain ⟨w', hw', hreplies⟩ := h (ofServerB .offline) rfl ⟨['b'], ['/']⟩ rfl (by decide) rfl Memory
    Memory.filesystem serverB (.ok ()) (.ok ()) _ _ (run_ofServerB .offline unwritten)
  rw [run_ofServerB] at hw'
  cases hw'
  exact absurd (hreplies readA (by decide)) (by decide)

/-- The first mount has cached nothing below another root, and leaves the mounts of that root
alone. -/
theorem isolated_below_b : Isolated homeOnly unwritten afterA ['a'] World.pathB := by
  refine (isolated_iff .empty rfl run_ofServerA Memory.filesystem readA World.pathB).1 ?_
  have hentries : usedA.store.disk.stored.entries.keys = [['/', 'a']] := by decide
  have hlistings : usedA.store.disk.stored.listings.keys = [] := by decide
  refine (Disk.bare_empty _).sameBelow ⟨fun key hkey => ?_, fun key _ _ => ?_, by decide⟩
  · refine AList.lookup_eq_none.mpr fun hmem => ?_
    have hkeys : key ∈ usedA.store.disk.stored.entries.keys := AList.mem_keys.mp hmem
    rw [hentries, List.mem_singleton] at hkeys
    rcases hkeys ▸ hkey.underRoot with heq | ⟨-, hbelow⟩
    · exact absurd heq (by decide)
    · exact absurd hbelow (by decide)
  · refine AList.lookup_eq_none.mpr fun hmem => ?_
    have hkeys : key ∈ usedA.store.disk.stored.listings.keys := AList.mem_keys.mp hmem
    rw [hlistings] at hkeys
    cases hkeys

end Cli

end CacheShfs
