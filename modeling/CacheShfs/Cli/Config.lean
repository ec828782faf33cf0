import CacheShfs.Core.Text
import CacheShfs.Vfs.Ops

/-!
# The command line

`crates/cacheshfs-cli/src/cli.rs`: the parsed arguments (`Cli`), the translation into a
`MountConfig`, and the texts of sizes, durations and remotes.  What clap does before is not
modelled.  `run` takes the results of `connect_options` and of the transport as arguments.

Paths are those of Unix.  They are compared by their components, as `std::path` does, without
asking the file system.
-/

namespace CacheShfs

/-- `enum CacheModeArg`. -/
inductive CacheModeArg
  | remote
  | onDemand
  | pinned
  | offline
  deriving DecidableEq, Repr

/-- `impl From<CacheModeArg> for CacheMode`. -/
def CacheModeArg.toCacheMode : CacheModeArg → CacheMode
  | .remote => .remote
  | .onDemand => .onDemand
  | .pinned => .pinned
  | .offline => .offline

/-- `struct Cli`. -/
structure Cli where
  remote : Str
  mountpoint : Str
  cacheDir : Option Str := none
  cacheMode : CacheModeArg := .onDemand
  cacheChunkSize : Option Str := none
  readOnly : Bool := false
  port : Option UInt16 := none
  identityFile : Option Str := none
  acceptUnknownHostKey : Bool := false
  sshConfig : Option Str := none
  metadataTtl : Option Str := none
  remoteReadTimeout : Option Str := none
  contentTtl : Option Str := none
  download : Option Str := none
  allowOther : Bool := false

/-- `struct RemoteConfig`. -/
structure RemoteConfig where
  target : Str
  root : Str
  deriving DecidableEq

/-- `struct MountConfig`. -/
structure MountConfig where
  remote : RemoteConfig
  mountpoint : Str
  cacheDir : Str
  cacheMode : CacheMode
  cacheChunkSize : UInt64
  readOnly : Bool

/-- The environment variables that the default cache directory depends on. -/
structure Env where
  localAppData : Option Str
  xdgCacheHome : Option Str
  home : Option Str

/-- `impl Display for Error`. -/
def Error.display : Error → String
  | .unsupportedPlatform message => message
  | .mountBackend message => message
  | .remoteBackend message => message
  | .notFound => "not found"
  | .alreadyExists => "already exists"
  | .permissionDenied => "permission denied"
  | .invalidInput message => message
  | .unsupportedOperation message => message
  | .unavailable message => message

namespace Cli

/-! ## Texts -/

/-- A text in single quotes, as the messages show it. -/
def quoted (text : Str) : String := "'" ++ String.ofList text ++ "'"

/-- `str::parse::<u64>`. -/
def parseU64 (text : Str) : Option ℕ := parseUnsigned 64 text

/-- What the suffix of a byte size multiplies with. -/
def multiplier (suffix : Str) : Option ℕ :=
  if suffix ∈ [[], ['b']] then some 1
  else if suffix ∈ [['k'], ['k', 'b'], ['k', 'i', 'b']] then some 1024
  else if suffix ∈ [['m'], ['m', 'b'], ['m', 'i', 'b']] then some (1024 * 1024)
  else if suffix ∈ [['g'], ['g', 'b'], ['g', 'i', 'b']] then some (1024 * 1024 * 1024)
  else none

/-- `parse_byte_size`. -/
def parseByteSize (text : Str) : Except String UInt64 :=
  let trimmed := trim text
  if trimmed = [] then .error "byte size must not be empty"
  else
    let digits := trimmed.takeWhile Char.isDigit
    if digits = [] then .error ("invalid byte size " ++ quoted text)
    else
      match parseU64 digits with
      | none => .error ("invalid byte size " ++ quoted text)
      | some value =>
          if value = 0 then .error "byte size must be greater than zero"
          else
            match multiplier ((trim (trimmed.drop digits.length)).map Char.toLower) with
            | none => .error ("invalid byte size suffix in " ++ quoted text)
            | some multiplier =>
                if value * multiplier < 2 ^ 64 then .ok (UInt64.ofNat (value * multiplier))
                else .error ("byte size " ++ quoted text ++ " is too large")

/-- The units of `parse_duration`. -/
inductive DurationUnit
  | milliseconds
  | seconds
  | minutes
  | hours

/-- The unit at the end of a duration, and the text before it. -/
def splitUnit (text : Str) : Str × DurationUnit :=
  if ['m', 's'] <:+ text then (text.dropLast.dropLast, .milliseconds)
  else if ['s'] <:+ text then (text.dropLast, .seconds)
  else if ['m'] <:+ text then (text.dropLast, .minutes)
  else if ['h'] <:+ text then (text.dropLast, .hours)
  else (text, .seconds)

/-- `parse_duration`, in nanoseconds.  The products of minutes and hours wrap, as in a release
build. -/
def parseDuration (text : Str) : Except String ℕ :=
  let text := trim text
  let (value, unit) := splitUnit text
  match parseU64 (trim value) with
  | none => .error ("invalid duration " ++ quoted text ++ " (use e.g. 30s, 5m, 1h, 500ms)")
  | some value =>
      match unit with
      | .milliseconds => .ok (value * 10 ^ 6)
      | .seconds => .ok (value * 10 ^ 9)
      | .minutes => .ok (value * 60 % 2 ^ 64 * 10 ^ 9)
      | .hours => .ok (value * 3600 % 2 ^ 64 * 10 ^ 9)

/-- `parse_remote`: the target before the first colon, and the root after it. -/
def parseRemote (spec : Str) : Except String RemoteConfig :=
  if ':' ∉ spec then
    .error ("invalid remote " ++ quoted spec ++ ": expected the form [user@]host:/remote/path")
  else
    let target := spec.takeWhile (· ≠ ':')
    let root := (spec.dropWhile (· ≠ ':')).tail
    if target = [] then .error ("invalid remote " ++ quoted spec ++ ": missing host before ':'")
    else if root = [] then
      .error ("invalid remote " ++ quoted spec ++ ": missing remote path after ':'")
    else .ok ⟨target, root⟩

/-! ## Paths -/

/-- `cache`. -/
def cacheName : Str := ['c', 'a', 'c', 'h', 'e']

/-- `cacheshfs`. -/
def programName : Str := cacheName ++ ['s', 'h', 'f', 's']

/-- `default_cache_dir`. -/
def defaultCacheDir (env : Env) : Str :=
  match env.localAppData with
  | some base => joinPath (joinPath base programName) cacheName
  | none =>
      match env.xdgCacheHome with
      | some base => joinPath base programName
      | none =>
          match env.home with
          | some home => joinPath (joinPath home ('.' :: cacheName)) programName
          | none => '.' :: programName ++ '-' :: cacheName

/-- `normalize`: the components of a path without the `.` ones.  `..` stays. -/
def normalize (path : Str) : List Str :=
  (if path.head? = some '/' then [['/']] else []) ++
    (path.splitOn '/').filter fun component => component ≠ [] ∧ component ≠ ['.']

/-- `is_inside`. -/
def isInside (path ancestor : Str) : Bool := (normalize ancestor).isPrefixOf (normalize path)

/-! ## Configurations -/

/-- `Cli::to_mount_config`. -/
def toMountConfig (cli : Cli) (env : Env) : Except String MountConfig :=
  match parseRemote cli.remote with
  | .error e => .error e
  | .ok remote =>
      let cacheDir := cli.cacheDir.getD (defaultCacheDir env)
      if isInside cacheDir cli.mountpoint then
        .error ("cache directory " ++ quoted cacheDir ++ " must not be inside the mountpoint " ++
          quoted cli.mountpoint)
      else
        match (match cli.cacheChunkSize with
          | some text => parseByteSize text
          | none => .ok (UInt64.ofNat defaultCacheChunkSize)) with
        | .error e => .error e
        | .ok cacheChunkSize =>
            .ok ⟨remote, cli.mountpoint, cacheDir, cli.cacheMode.toCacheMode, cacheChunkSize,
              cli.readOnly⟩

/-- `DEFAULT_METADATA_TTL`: five seconds. -/
def defaultMetadataTtl : ℕ := 5 * 10 ^ 9

/-- `Cli::metadata_ttl_duration`. -/
def metadataTtlDuration (cli : Cli) : Except String ℕ :=
  match cli.metadataTtl with
  | some text => parseDuration text
  | none => .ok defaultMetadataTtl

/-! ## Mounting -/

variable {ρ : Type}

/-- The connection of a mount that is not offline: `connect_options`, then
`connect_with_options`. -/
def connection (target : Str) (options : Except String Unit) (connected : Except Error Unit) :
    Except String Unit :=
  match options with
  | .error e => .error e
  | .ok () =>
      match connected with
      | .error e =>
          .error ("failed to connect to " ++ String.ofList target ++ ": " ++ e.display)
      | .ok () => .ok ()

/-- `run`, up to the mount.  `files` has the directory that a path names, and `options` and
`connected` are how the two steps of the connection end. -/
def run (cli : Cli) (env : Env) (files : Str → Disk) (options : Except String Unit)
    (connected : Except Error Unit) (conn : Conn ρ) : Except String (MountConfig × World ρ) :=
  match cli.toMountConfig env with
  | .error e => .error e
  | .ok config =>
      match RemotePath.new config.remote.root with
      | .error e => .error ("invalid remote path: " ++ e.display)
      | .ok root =>
          match cli.metadataTtlDuration with
          | .error e => .error e
          | .ok metadataTtl =>
              match (if config.cacheMode = .offline then .ok ()
                else connection config.remote.target options connected) with
              | .error e => .error e
              | .ok () =>
                  .ok (config, World.new
                    ⟨root, config.readOnly, config.cacheMode, metadataTtl, config.cacheChunkSize⟩
                    (files config.cacheDir) conn)

/-- The remote of the mount. -/
def filesystem (cli : Cli) (R : RemoteFilesystem ρ) : RemoteFilesystem ρ :=
  if cli.cacheMode = .offline then disconnectedRemote ρ else R

end Cli

end CacheShfs
