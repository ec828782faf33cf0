import CacheShfs.Cli.Config
import CacheShfs.Cli.SshConfig
import CacheShfs.Sftp.Backend
import CacheShfs.Sftp.Target

/-!
# The options of a connection

`Cli::connect_options` of `crates/cacheshfs-cli/src/cli.rs`, with the `SftpConnectOptions` of the
transport.  User, host, port and identity files are each put together from the command line, the
target, the ssh config and the defaults.

`Precedence` is the order in which these sources are said to count.  It is kept for the user, the
host and the port.  The identity files are appended to the built-in ones, where those given are
said to come first; that makes no difference exactly where there are no built-in ones, or the
given ones repeat them.
-/

namespace CacheShfs

open SshConfig SftpTarget

/-- `struct SftpConnectOptions`.  Times are in nanoseconds. -/
structure SftpConnectOptions where
  target : SftpTarget
  knownHostsFiles : List Str
  acceptUnknownHosts : Bool
  useAgent : Bool
  identityFiles : List Str
  passphrase : Option Str
  readTimeout : ℕ
  deriving DecidableEq

/-- `~/.ssh` -/
def sshDir (home : Str) : Str := pushPath home ['.', 's', 's', 'h']

/-- `default_known_hosts_files`. -/
def defaultKnownHostsFiles (env : HomeEnv) : List Str :=
  match homeDir env with
  | some home => [pushPath (sshDir home) ['k', 'n', 'o', 'w', 'n', '_', 'h', 'o', 's', 't', 's']]
  | none => []

/-- The names of `default_identity_files`. -/
def identityNames : List Str :=
  [['i', 'd', '_', 'e', 'd', '2', '5', '5', '1', '9'], ['i', 'd', '_', 'e', 'c', 'd', 's', 'a'],
    ['i', 'd', '_', 'r', 's', 'a']]

/-- `default_identity_files`. -/
def defaultIdentityFiles (env : HomeEnv) : List Str :=
  match homeDir env with
  | some home => identityNames.map (pushPath (sshDir home))
  | none => []

namespace SftpConnectOptions

/-- `SftpConnectOptions::for_target`. -/
def forTarget (env : HomeEnv) (target : SftpTarget) : SftpConnectOptions where
  target := target
  knownHostsFiles := defaultKnownHostsFiles env
  acceptUnknownHosts := false
  useAgent := true
  identityFiles := defaultIdentityFiles env
  passphrase := none
  readTimeout := 30 * 10 ^ 9

/-- `SftpConnectOptions::with_identity_file`. -/
def withIdentityFile (options : SftpConnectOptions) (path : Str) : SftpConnectOptions :=
  { options with identityFiles := options.identityFiles ++ [path] }

/-- `SftpConnectOptions::with_read_timeout`. -/
def withReadTimeout (options : SftpConnectOptions) (timeout : ℕ) : SftpConnectOptions :=
  { options with readTimeout := timeout }

end SftpConnectOptions

/-- What `connect_options` reads besides its arguments: environment variables and files. -/
structure ConnectEnv where
  home : HomeEnv
  user : UserEnv
  /-- `std::fs::read_to_string`. -/
  readFile : Str → Except IoError Str

namespace Cli

/-- `Cli::resolve_ssh_config`. -/
def resolveSshConfig (cli : Cli) (env : ConnectEnv) (hostAlias : Str) :
    Except String SshHostConfig :=
  match (match cli.sshConfig with
    | some path => some (path, true)
    | none => (defaultConfigPath env.home).map fun path => (path, false)) with
  | none => .ok {}
  | some (path, required) =>
      match env.readFile path with
      | .ok text => .ok (resolve env.home text hostAlias)
      | .error error =>
          if error.kind = .notFound ∧ required = false then .ok {}
          else .error ("failed to read ssh config " ++ quoted path ++ ": " ++ error.text)

/-- The target with what the config and the command line say. -/
def configuredTarget (cli : Cli) (explicit : Option Str) (config : SshHostConfig)
    (target : SftpTarget) : SftpTarget where
  host := config.hostname.getD target.host
  username := if explicit = none then config.user.getD target.username else target.username
  port :=
    match cli.port with
    | some port => port
    | none => config.port.getD target.port

/-- The options that only the command line sets. -/
def finishOptions (cli : Cli) (options : SftpConnectOptions) : Except String SftpConnectOptions :=
  let options :=
    if cli.acceptUnknownHostKey then { options with acceptUnknownHosts := true } else options
  match cli.remoteReadTimeout with
  | none => .ok options
  | some timeout =>
      match parseDuration timeout with
      | .error e => .error e
      | .ok timeout => .ok (options.withReadTimeout timeout)

/-- `Cli::connect_options`. -/
def connectOptions (cli : Cli) (env : ConnectEnv) (target : Str) :
    Except String SftpConnectOptions :=
  let (explicit, hostAlias) :=
    match explicitUser target with
    | some (user, host) => (some user, host)
    | none => (none, target)
  match cli.resolveSshConfig env hostAlias with
  | .error e => .error e
  | .ok config =>
      match SftpTarget.parse env.user target with
      | .error e => .error e.display
      | .ok sftpTarget =>
          let options :=
            .forTarget env.home (cli.configuredTarget explicit config sftpTarget)
          let options :=
            match cli.identityFile with
            | some path => options.withIdentityFile path
            | none => options
          cli.finishOptions (config.identityFiles.foldl .withIdentityFile options)

/-! ## The order in which the sources count -/

/-- The text of the ssh config: that of `--ssh-config`, else that of the default file, if there is
one. -/
def ConfigText (cli : Cli) (env : ConnectEnv) (text : Str) : Prop :=
  match cli.sshConfig, defaultConfigPath env.home with
  | some path, _ => env.readFile path = .ok text
  | none, some path => env.readFile path = .ok text ∨
      (∃ error, env.readFile path = .error error ∧ error.kind = .notFound) ∧ text = []
  | none, none => text = []

/-- What the config says about the alias in the target. -/
def hostConfig (env : ConnectEnv) (target text : Str) : SshHostConfig :=
  meaning env.home (hostPart target) (settings text)

/-- The order in which the sources count: what is given explicitly, then the config, then the
target or the default. -/
structure Precedence (cli : Cli) (env : ConnectEnv) (target text : Str)
    (options : SftpConnectOptions) : Prop where
  username :
    match explicitUser target, (hostConfig env target text).user with
    | some parts, _ => options.target.username = parts.1
    | none, some user => options.target.username = user
    | none, none => defaultUsername env.user = .ok options.target.username
  host :
    match (hostConfig env target text).hostname with
    | some host => options.target.host = host
    | none => ∃ port, HostAndPort (hostPart target) options.target.host port
  port :
    match cli.port, (hostConfig env target text).port with
    | some port, _ => options.target.port = port
    | none, some port => options.target.port = port
    | none, none => ∃ host, HostAndPort (hostPart target) host options.target.port
  identityFiles : options.identityFiles = cli.identityFile.toList ++
    (hostConfig env target text).identityFiles ++ defaultIdentityFiles env.home

/-- The identity files that are given, on the command line and in the config. -/
def givenIdentityFiles (cli : Cli) (env : ConnectEnv) (target text : Str) : List Str :=
  cli.identityFile.toList ++ (hostConfig env target text).identityFiles

/-- The order of the identity files makes no difference: there are no built-in ones, or the given
ones are these, any number of times over. -/
def OrderImmaterial (cli : Cli) (env : ConnectEnv) (target text : Str) : Prop :=
  homeDir env.home = none ∨ ∃ n, cli.givenIdentityFiles env target text =
    (List.replicate n (defaultIdentityFiles env.home)).flatten

variable {cli : Cli} {env : ConnectEnv} {target text : Str} {options : SftpConnectOptions}

lemma resolveSshConfig_ok {hostAlias : Str} {config : SshHostConfig}
    (htext : cli.ConfigText env text) (h : cli.resolveSshConfig env hostAlias = .ok config) :
    config = meaning env.home hostAlias (settings text) := by
  rw [← resolve_meaning]
  unfold ConfigText at htext
  unfold resolveSshConfig at h
  cases hpath : cli.sshConfig with
  | some path =>
      simp only [hpath] at h htext
      simp only [htext] at h
      exact (Except.ok.inj h).symm
  | none =>
      cases hdefault : defaultConfigPath env.home with
      | none =>
          simp only [hpath, hdefault, Option.map_none] at h htext
          rw [htext]
          exact (Except.ok.inj h).symm
      | some path =>
          simp only [hpath, hdefault, Option.map_some] at h htext
          rcases htext with hread | ⟨⟨error, hread, hkind⟩, rfl⟩
          · simp only [hread] at h
            exact (Except.ok.inj h).symm
          · simp only [hread, hkind, and_self, if_true] at h
            exact (Except.ok.inj h).symm

lemma finishOptions_ok {options' : SftpConnectOptions}
    (h : cli.finishOptions options = .ok options') :
    options'.target = options.target ∧ options'.identityFiles = options.identityFiles := by
  have haccept : ∀ accept : Bool,
      (if accept then { options with acceptUnknownHosts := true } else options).target =
        options.target ∧
      (if accept then { options with acceptUnknownHosts := true } else options).identityFiles =
        options.identityFiles := fun accept => by cases accept <;> exact ⟨rfl, rfl⟩
  rw [finishOptions] at h
  cases htimeout : cli.remoteReadTimeout with
  | none =>
      simp only [htimeout] at h
      rw [← Except.ok.inj h]
      exact haccept _
  | some timeout =>
      cases hduration : parseDuration timeout with
      | error e => simp [htimeout, hduration] at h
      | ok duration =>
          simp only [htimeout, hduration] at h
          rw [← Except.ok.inj h]
          exact haccept _

lemma foldl_withIdentityFile (files : List Str) (options : SftpConnectOptions) :
    files.foldl .withIdentityFile options =
      { options with identityFiles := options.identityFiles ++ files } := by
  induction files generalizing options with
  | nil => simp
  | cons file files ih =>
      rw [List.foldl_cons, ih]
      simp [SftpConnectOptions.withIdentityFile]

lemma connectOptions_eq (cli : Cli) (env : ConnectEnv) (target : Str) :
    cli.connectOptions env target =
      match cli.resolveSshConfig env (hostPart target) with
      | .error e => .error e
      | .ok config =>
          match SftpTarget.parse env.user target with
          | .error e => .error e.display
          | .ok sftpTarget => cli.finishOptions
              { SftpConnectOptions.forTarget env.home
                (cli.configuredTarget ((explicitUser target).map Prod.fst) config sftpTarget) with
                identityFiles := defaultIdentityFiles env.home ++
                  (cli.identityFile.toList ++ config.identityFiles) } := by
  have hparts : (match explicitUser target with
      | some (user, host) => (some user, host)
      | none => (none, target)) = ((explicitUser target).map Prod.fst, hostPart target) := by
    rw [hostPart]
    cases explicitUser target <;> rfl
  unfold connectOptions
  simp only [hparts, foldl_withIdentityFile]
  cases cli.identityFile <;>
    simp [SftpConnectOptions.withIdentityFile, SftpConnectOptions.forTarget]

/-- What the options are made of. -/
lemma connectOptions_ok (htext : cli.ConfigText env text)
    (h : cli.connectOptions env target = .ok options) :
    ∃ sftpTarget, SftpTarget.parse env.user target = .ok sftpTarget ∧
      options.target = cli.configuredTarget ((explicitUser target).map Prod.fst)
        (hostConfig env target text) sftpTarget ∧
      options.identityFiles =
        defaultIdentityFiles env.home ++ cli.givenIdentityFiles env target text := by
  rw [connectOptions_eq] at h
  cases hconfig : cli.resolveSshConfig env (hostPart target) with
  | error e => simp [hconfig] at h
  | ok config =>
      cases hparse : SftpTarget.parse env.user target with
      | error e => simp [hconfig, hparse] at h
      | ok sftpTarget =>
          simp only [hconfig, hparse] at h
          obtain ⟨htarget, hfiles⟩ := finishOptions_ok h
          have hmeaning : config = hostConfig env target text := resolveSshConfig_ok htext hconfig
          rw [← hmeaning]
          refine ⟨sftpTarget, rfl, htarget, ?_⟩
          rw [hfiles, givenIdentityFiles, ← hmeaning]

/-- The user, the host and the port are those of the first source that has one. -/
lemma precedence_iff_identityFiles (htext : cli.ConfigText env text)
    (h : cli.connectOptions env target = .ok options) :
    cli.Precedence env target text options ↔ options.identityFiles =
      cli.givenIdentityFiles env target text ++ defaultIdentityFiles env.home := by
  obtain ⟨sftpTarget, hparse, htarget, -⟩ := connectOptions_ok htext h
  obtain ⟨hname, hread⟩ := parse_iff.mp hparse
  refine ⟨fun h => h.identityFiles, fun hfiles => ⟨?_, ?_, ?_, hfiles⟩⟩
  · rw [htarget]
    cases hexplicit : explicitUser target with
    | some parts =>
        rw [hexplicit] at hname
        simpa [configuredTarget] using hname
    | none =>
        rw [hexplicit] at hname
        cases huser : (hostConfig env target text).user with
        | some user => simp [configuredTarget, huser]
        | none => simpa [configuredTarget, huser] using hname
  · rw [htarget]
    cases hhost : (hostConfig env target text).hostname with
    | some host => simp [configuredTarget, hhost]
    | none => exact ⟨sftpTarget.port, by simpa [configuredTarget, hhost] using hread⟩
  · rw [htarget]
    cases hport : cli.port with
    | some port => simp [configuredTarget, hport]
    | none =>
        cases hconfig : (hostConfig env target text).port with
        | some port => simp [configuredTarget, hport, hconfig]
        | none => exact ⟨sftpTarget.host, by simpa [configuredTarget, hport, hconfig] using hread⟩

/-- The calls that succeed: the config can be read, the target can be parsed, and the read timeout
is a duration. -/
lemma connectOptions_succeeds (cli : Cli) (env : ConnectEnv) (target : Str) :
    (∃ options, cli.connectOptions env target = .ok options) ↔
      (∃ text, cli.ConfigText env text) ∧
      (∃ sftpTarget, SftpTarget.parse env.user target = .ok sftpTarget) ∧
      ∀ timeout ∈ cli.remoteReadTimeout, ∃ duration, parseDuration timeout = .ok duration := by
  have hconfig : (∃ config, cli.resolveSshConfig env (hostPart target) = .ok config) ↔
      ∃ text, cli.ConfigText env text := by
    unfold resolveSshConfig ConfigText
    cases hpath : cli.sshConfig with
    | some path => cases hread : env.readFile path <;> simp [hread]
    | none =>
        cases hdefault : defaultConfigPath env.home with
        | none => simp
        | some path =>
            cases hread : env.readFile path with
            | ok text => simp [hread]
            | error e => by_cases hkind : e.kind = .notFound <;> simp [hread, hkind]
  have hfinish : ∀ options, (∃ options', cli.finishOptions options = .ok options') ↔
      ∀ timeout ∈ cli.remoteReadTimeout, ∃ duration, parseDuration timeout = .ok duration := by
    intro options
    rw [finishOptions]
    cases htimeout : cli.remoteReadTimeout with
    | none => simp
    | some timeout => cases hduration : parseDuration timeout <;> simp [hduration]
  rw [connectOptions_eq, ← hconfig]
  cases cli.resolveSshConfig env (hostPart target) with
  | error e => simp
  | ok config =>
      cases SftpTarget.parse env.user target with
      | error e => simp
      | ok sftpTarget => simp [hfinish]

/-! ## Lists that commute -/

/-- Without repetitions, a list commutes only with the copies of itself. -/
lemma append_comm_copies {α : Type*} {v : List α} (hv : v.Nodup) (hne : v ≠ []) {len : ℕ}
    {u : List α} (hu : u.length ≤ len) (h : v ++ u = u ++ v) :
    ∃ n, u = (List.replicate n v).flatten := by
  have hpos := List.length_pos_iff.mpr hne
  induction len generalizing u with
  | zero => exact ⟨0, List.length_eq_zero_iff.mp (Nat.le_zero.mp hu)⟩
  | succ len ih =>
      by_cases hlen : v.length ≤ u.length
      · -- a copy can be taken off
        obtain ⟨u', rfl⟩ := List.prefix_of_prefix_length_le (List.prefix_append v u)
          (h ▸ List.prefix_append u v) hlen
        rw [List.append_assoc, List.append_cancel_left_eq] at h
        rw [List.length_append] at hu
        obtain ⟨n, hn⟩ := ih (by omega) h
        exact ⟨n + 1, by rw [List.replicate_succ, List.flatten_cons, ← hn]⟩
      · -- `u` is shorter than `v`, and what is left of `v` begins as `u` does
        obtain ⟨w, rfl⟩ := List.prefix_of_prefix_length_le (List.prefix_append u v)
          (h ▸ List.prefix_append v u) (by omega)
        rw [List.append_assoc, List.append_cancel_left_eq] at h
        cases u with
        | nil => exact ⟨0, rfl⟩
        | cons x u =>
            cases w with
            | nil => simp at hlen
            | cons y w =>
                obtain ⟨rfl, -⟩ := List.cons.inj h
                have hdisjoint := List.disjoint_of_nodup_append hv
                exact absurd List.mem_cons_self (hdisjoint List.mem_cons_self)

lemma append_comm_iff {α : Type*} {v : List α} (hv : v.Nodup) (hne : v ≠ []) (u : List α) :
    u ++ v = v ++ u ↔ ∃ n, u = (List.replicate n v).flatten := by
  refine ⟨fun h => append_comm_copies hv hne (le_refl u.length) h.symm, ?_⟩
  rintro ⟨n, rfl⟩
  induction n with
  | zero => simp
  | succ n ih => rw [List.replicate_succ, List.flatten_cons, List.append_assoc, ih]

lemma pushPath_inj {base a b : Str} (ha : a.head? ≠ some '/') (hb : b.head? ≠ some '/')
    (h : pushPath base a = pushPath base b) : a = b := by
  rw [pushPath, pushPath, if_neg ha, if_neg hb, joinPath, joinPath] at h
  split at h
  · exact List.append_cancel_left h
  · exact (List.cons.inj (List.append_cancel_left h)).2

/-- The built-in identity files differ. -/
lemma nodup_defaultIdentityFiles (env : HomeEnv) : (defaultIdentityFiles env).Nodup := by
  rw [defaultIdentityFiles]
  split
  · refine List.Nodup.map_on (fun a ha b hb h => ?_) (by decide)
    have hrelative : ∀ name ∈ identityNames, name.head? ≠ some '/' := by decide
    exact pushPath_inj (hrelative a ha) (hrelative b hb) h
  · exact List.nodup_nil

/-- **Explicit settings come before the config, and this before the defaults, but for the identity
files.**  For every command line, target and config with which `connect_options` succeeds, the
sources count in this order if and only if there are no built-in identity files, or the given ones
are these, any number of times over. -/
theorem connectOptions_precedence_iff (htext : cli.ConfigText env text)
    (h : cli.connectOptions env target = .ok options) :
    cli.Precedence env target text options ↔ cli.OrderImmaterial env target text := by
  obtain ⟨sftpTarget, -, -, hfiles⟩ := connectOptions_ok htext h
  rw [precedence_iff_identityFiles htext h, hfiles, OrderImmaterial]
  cases hhome : homeDir env.home with
  | none => simp [defaultIdentityFiles, hhome]
  | some home =>
      have hne : defaultIdentityFiles env.home ≠ [] := by
        simp [defaultIdentityFiles, hhome, identityNames]
      rw [eq_comm, append_comm_iff (nodup_defaultIdentityFiles env.home) hne]
      simp

/-- The user `a` with the home directory `/`, and no ssh config. -/
def envA : ConnectEnv where
  home := ⟨some ['/'], none⟩
  user := ⟨some ['a'], none⟩
  readFile _ := .error ⟨.notFound, "no such file"⟩

/-- A mount of the host `h` with the identity file `/k`. -/
def cliK : Cli where
  remote := ['h', ':', '/']
  mountpoint := ['/', 'm']
  identityFile := some ['/', 'k']

lemma configText_envA : cliK.ConfigText envA [] := .inr ⟨⟨_, rfl, rfl⟩, rfl⟩

/-- The options of this mount for the target `h`. -/
def optionsK : SftpConnectOptions where
  target := ⟨['a'], ['h'], 22⟩
  knownHostsFiles := defaultKnownHostsFiles envA.home
  acceptUnknownHosts := false
  useAgent := true
  identityFiles := defaultIdentityFiles envA.home ++ [['/', 'k']]
  passphrase := none
  readTimeout := 30 * 10 ^ 9

lemma connectOptions_cliK : cliK.connectOptions envA ['h'] = .ok optionsK := rfl

theorem connectOptions_precedence_iff_cliK :
    cliK.Precedence envA ['h'] [] optionsK ↔ cliK.OrderImmaterial envA ['h'] [] :=
  connectOptions_precedence_iff configText_envA connectOptions_cliK

/-- The identity file that is given is the last one. -/
theorem identity_file_last : cliK.connectOptions envA ['h'] = .ok optionsK ∧
    ¬ cliK.Precedence envA ['h'] [] optionsK := by
  refine ⟨connectOptions_cliK, fun h => ?_⟩
  have hfirst := congrArg List.head? h.identityFiles
  exact absurd hfirst (by decide)

end Cli

end CacheShfs
