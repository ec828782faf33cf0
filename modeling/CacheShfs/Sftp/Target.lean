import CacheShfs.Core.Text
import CacheShfs.Lib.Split

/-!
# SFTP targets

`SftpTarget::parse` of `crates/cacheshfs-sftp/src/lib.rs`: the text of a target, split at the last
`@`, at the brackets of an IPv6 address and at the last colon.

What the part after the user is read as is said by `HostAndPort`, in three cases.  A target that
has been read can be written with its user and port and read again, with a host that is not empty,
unless it is of one of the kinds that the guards let through (`HostFlaw`).
-/

namespace CacheShfs

open Split

/-- `struct SftpTarget`. -/
structure SftpTarget where
  username : Str
  host : Str
  port : UInt16
  deriving DecidableEq

/-- The environment variables that name the user. -/
structure UserEnv where
  user : Option Str
  userName : Option Str

/-- `default_username`. -/
def defaultUsername (env : UserEnv) : Except Error Str :=
  match env.user.or env.userName with
  | some username => .ok username
  | none => .error (.invalidInput "sftp target must include a username")

namespace SftpTarget

/-- `parse_port`. -/
def parsePort (port : Str) : Except Error UInt16 :=
  match parseU16 port with
  | some n => .ok n
  | none => .error (.invalidInput ("invalid sftp target port: " ++ String.ofList port))

/-- `parse_host_and_port`. -/
def parseHostAndPort (hostAndPort : Str) : Except Error (Str × UInt16) :=
  match hostAndPort with
  | [] => .error (.invalidInput "sftp target host is empty")
  | '[' :: rest =>
      match splitOnce ']' rest with
      | none => .error (.invalidInput "bracketed IPv6 host is missing ']'")
      | some (host, port) =>
          match port with
          | [':'] => .ok (host, 22)
          | ':' :: port => (parsePort port).map fun port => (host, port)
          | _ => .error (.invalidInput "bracketed host port must follow ']' with ':'")
  | _ =>
      match rsplitOnce ':' hostAndPort with
      | some (host, port) =>
          if ':' ∉ host then (parsePort port).map fun port => (host, port)
          else .ok (hostAndPort, 22)
      | none => .ok (hostAndPort, 22)

/-- The user before the last `@` and what follows it, if the user is not empty. -/
def explicitUser (target : Str) : Option (Str × Str) :=
  (rsplitOnce '@' target).filter fun parts => parts.1 ≠ []

/-- `SftpTarget::parse`. -/
def parse (env : UserEnv) (target : Str) : Except Error SftpTarget :=
  match (match explicitUser target with
    | some parts => Except.ok parts
    | none => (defaultUsername env).map fun username => (username, target)) with
  | .error e => .error e
  | .ok (username, hostAndPort) =>
      match parseHostAndPort hostAndPort with
      | .error e => .error e
      | .ok (host, port) => .ok ⟨username, host, port⟩

/-! ## What is read -/

/-- The text of a port: none is 22. -/
def PortText (text : Str) (port : UInt16) : Prop :=
  text = [] ∧ port = 22 ∨ parseU16 text = some port

/-- A text after the user is read as a host and a port: a host in brackets, a host before the only
colon, or a host alone, which may be an IPv6 address. -/
inductive HostAndPort : Str → Str → UInt16 → Prop
  | bracketed {host portText : Str} {port : UInt16} (hclosed : ']' ∉ host)
      (hport : PortText portText port) :
      HostAndPort ('[' :: (host ++ ']' :: ':' :: portText)) host port
  | withPort {host portText : Str} {port : UInt16} (hopen : host.head? ≠ some '[')
      (hcolon : ':' ∉ host) (hport : parseU16 portText = some port) :
      HostAndPort (host ++ ':' :: portText) host port
  | alone {host : Str} (hne : host ≠ []) (hopen : host.head? ≠ some '[')
      (hcolons : host.count ':' ≠ 1) : HostAndPort host host 22

lemma parsePort_ok {text : Str} {port : UInt16} :
    parsePort text = .ok port ↔ parseU16 text = some port := by
  unfold parsePort
  cases parseU16 text <;> simp

lemma map_parsePort_ok {text host : Str} {r : Str × UInt16} :
    (parsePort text).map (fun port => (host, port)) = .ok r ↔
      parseU16 text = some r.2 ∧ r.1 = host := by
  cases hport : parsePort text with
  | error e =>
      refine iff_of_false (by simp [Except.map]) fun h => ?_
      rw [parsePort_ok.mpr h.1] at hport
      cases hport
  | ok port =>
      rw [parsePort_ok.mp hport]
      obtain ⟨host', port'⟩ := r
      simp [Except.map, and_comm, eq_comm]

/-- The colons of a text that has one are all before its last one, but that one. -/
lemma count_colon_eq_one {host rest : Str} (hrest : ':' ∉ rest) :
    (host ++ ':' :: rest).count ':' = 1 ↔ ':' ∉ host := by
  rw [List.count_append, List.count_cons_self, List.count_eq_zero_of_not_mem hrest,
    ← List.count_eq_zero]
  omega

/-- Reading a host in brackets. -/
lemma parse_bracketed {rest host : Str} {port : UInt16} :
    parseHostAndPort ('[' :: rest) = .ok (host, port) ↔
      ∃ portText, rest = host ++ ']' :: ':' :: portText ∧ ']' ∉ host ∧ PortText portText port := by
  rw [parseHostAndPort]
  cases hsplit : splitOnce ']' rest with
  | none =>
      refine iff_of_false (by simp) ?_
      rintro ⟨portText, rfl, -, -⟩
      exact splitOnce_eq_none.mp hsplit (by simp)
  | some parts =>
      obtain ⟨inner, after⟩ := parts
      obtain ⟨rfl, hclosed⟩ := splitOnce_eq_some.mp hsplit
      -- what stands before the first bracket is determined
      have hinner : ∀ portText, inner ++ ']' :: after = host ++ ']' :: ':' :: portText →
          ']' ∉ host → inner = host ∧ after = ':' :: portText := by
        intro portText heq hhost
        rw [splitOnce_eq_some.mpr ⟨heq, hhost⟩] at hsplit
        obtain ⟨rfl, rfl⟩ := Prod.mk.inj (Option.some.inj hsplit)
        exact ⟨rfl, rfl⟩
      simp only
      split
      · constructor
        · intro h
          obtain ⟨rfl, rfl⟩ := Prod.mk.inj (Except.ok.inj h)
          exact ⟨[], rfl, hclosed, .inl ⟨rfl, rfl⟩⟩
        · rintro ⟨portText, heq, hhost, hport⟩
          obtain ⟨rfl, hafter⟩ := hinner portText heq hhost
          obtain rfl : [] = portText := (List.cons.inj hafter).2
          rcases hport with ⟨-, rfl⟩ | hport
          · rfl
          · cases hport
      · next portText hne =>
          rw [map_parsePort_ok]
          constructor
          · rintro ⟨hport, rfl⟩
            exact ⟨portText, rfl, hclosed, .inr hport⟩
          · rintro ⟨portText', heq, hhost, hport⟩
            obtain ⟨rfl, hafter⟩ := hinner portText' heq hhost
            obtain rfl : portText = portText' := (List.cons.inj hafter).2
            rcases hport with ⟨rfl, -⟩ | hport
            · exact absurd rfl hne
            · exact ⟨hport, rfl⟩
      · next hcolon =>
          refine iff_of_false (by simp) ?_
          rintro ⟨portText, heq, hhost, -⟩
          exact hcolon portText (hinner portText heq hhost).2

/-- Reading a host that is not in brackets. -/
lemma parse_unbracketed {text host : Str} {port : UInt16} (hne : text ≠ [])
    (hopen : text.head? ≠ some '[') :
    parseHostAndPort text = .ok (host, port) ↔
      (∃ portText, text = host ++ ':' :: portText ∧ ':' ∉ host ∧ parseU16 portText = some port) ∨
      (text.count ':' ≠ 1 ∧ host = text ∧ port = 22) := by
  unfold parseHostAndPort
  split
  · exact absurd rfl hne
  · exact absurd rfl hopen
  · cases hsplit : rsplitOnce ':' text with
    | none =>
        have hcolon := rsplitOnce_eq_none.mp hsplit
        have hcount : text.count ':' ≠ 1 := by
          rw [List.count_eq_zero_of_not_mem hcolon]
          decide
        constructor
        · intro h
          obtain ⟨rfl, rfl⟩ := Prod.mk.inj (Except.ok.inj h)
          exact .inr ⟨hcount, rfl, rfl⟩
        · rintro (⟨portText, rfl, -, -⟩ | ⟨-, rfl, rfl⟩)
          · simp at hcolon
          · rfl
    | some parts =>
        obtain ⟨before, after⟩ := parts
        obtain ⟨rfl, hafter⟩ := rsplitOnce_eq_some.mp hsplit
        simp only
        by_cases hbefore : ':' ∈ before
        · rw [if_neg (not_not.mpr hbefore)]
          have hcount : (before ++ ':' :: after).count ':' ≠ 1 :=
            fun h => (count_colon_eq_one hafter).mp h hbefore
          constructor
          · intro h
            obtain ⟨rfl, rfl⟩ := Prod.mk.inj (Except.ok.inj h)
            exact .inr ⟨hcount, rfl, rfl⟩
          · rintro (⟨portText, heq, hhost, hport⟩ | ⟨-, rfl, rfl⟩)
            · have hcolon := not_mem_of_parseU16 hport (c := ':') (by decide) (by decide)
              rw [heq] at hcount
              exact absurd ((count_colon_eq_one hcolon).mpr hhost) hcount
            · rfl
        · rw [if_pos hbefore, map_parsePort_ok]
          constructor
          · rintro ⟨hport, rfl⟩
            exact .inl ⟨after, rfl, hbefore, hport⟩
          · rintro (⟨portText, heq, hhost, hport⟩ | ⟨hcount, -, -⟩)
            · have hcolon := not_mem_of_parseU16 hport (c := ':') (by decide) (by decide)
              rw [rsplitOnce_eq_some.mpr ⟨heq, hcolon⟩] at hsplit
              obtain ⟨rfl, rfl⟩ := Prod.mk.inj (Option.some.inj hsplit)
              exact ⟨hport, rfl⟩
            · exact absurd ((count_colon_eq_one hafter).mpr hbefore) hcount

/-- The text is read as `HostAndPort` says. -/
lemma parseHostAndPort_ok {text host : Str} {port : UInt16} :
    parseHostAndPort text = .ok (host, port) ↔ HostAndPort text host port := by
  constructor
  · intro h
    by_cases hne : text = []
    · rw [hne] at h
      cases h
    by_cases hopen : text.head? = some '['
    · obtain ⟨rest, rfl⟩ := List.head?_eq_some_iff.mp hopen
      obtain ⟨portText, rfl, hclosed, hport⟩ := parse_bracketed.mp h
      exact .bracketed hclosed hport
    · rcases (parse_unbracketed hne hopen).mp h with
        ⟨portText, rfl, hcolon, hport⟩ | ⟨hcount, rfl, rfl⟩
      · refine .withPort (fun hhost => hopen ?_) hcolon hport
        rw [List.head?_append, hhost]
        rfl
      · exact .alone hne hopen hcount
  · intro h
    cases h with
    | bracketed hclosed hport => exact parse_bracketed.mpr ⟨_, rfl, hclosed, hport⟩
    | withPort hopen hcolon hport =>
        refine (parse_unbracketed (by simp) fun hhead => ?_).mpr (.inl ⟨_, rfl, hcolon, hport⟩)
        cases host with
        | nil => simp at hhead
        | cons c host => exact hopen hhead
    | alone hne hopen hcolons => exact (parse_unbracketed hne hopen).mpr (.inr ⟨hcolons, rfl, rfl⟩)

/-! ## Writing a target -/

/-- A host as it stands in a target: in brackets if there is a colon in it. -/
def writeHost (host : Str) : Str := if ':' ∈ host then '[' :: (host ++ [']']) else host

/-- A target with its user and port. -/
def write (target : SftpTarget) : Str :=
  target.username ++ '@' :: (writeHost target.host ++ ':' :: displayU16 target.port)

/-- The host can be told from what is around it: no bracket closes an IPv6 address, and none opens
another host. -/
def Delimited (host : Str) : Prop :=
  (':' ∈ host → ']' ∉ host) ∧ (':' ∉ host → host.head? ≠ some '[')

/-- What a good target is: one that has a host, and that is read again as it is written. -/
structure Sound (env : UserEnv) (target : SftpTarget) : Prop where
  host_ne : target.host ≠ []
  no_at : '@' ∉ target.host
  reads_back : parse env target.write = .ok target

/-- A host that is written is read again if it is delimited. -/
lemma writeHost_iff (host : Str) (port : UInt16) :
    HostAndPort (writeHost host ++ ':' :: displayU16 port) host port ↔ Delimited host := by
  have hport := parseU16_displayU16 port
  by_cases hcolon : ':' ∈ host
  · have hwrite : writeHost host ++ ':' :: displayU16 port =
        '[' :: (host ++ ']' :: ':' :: displayU16 port) := by simp [writeHost, hcolon]
    rw [hwrite, ← parseHostAndPort_ok, parse_bracketed]
    constructor
    · rintro ⟨portText, heq, hclosed, -⟩
      exact ⟨fun _ => hclosed, fun h => absurd hcolon h⟩
    · intro h
      exact ⟨displayU16 port, rfl, h.1 hcolon, .inr hport⟩
  · have hwrite : writeHost host = host := if_neg hcolon
    rw [hwrite]
    constructor
    · intro h
      refine ⟨fun h => absurd h hcolon, fun _ hopen => ?_⟩
      obtain ⟨rest, rfl⟩ := List.head?_eq_some_iff.mp hopen
      obtain ⟨portText, heq, -, -⟩ := parse_bracketed.mp (parseHostAndPort_ok.mpr h)
      -- the colon after the host would stand within the host
      have hget : (rest ++ ':' :: displayU16 port)[rest.length]? =
          ('[' :: rest ++ ']' :: ':' :: portText)[rest.length]? := congrArg (·[rest.length]?) heq
      rw [List.getElem?_append_right (le_refl _), List.getElem?_append_left (by simp)] at hget
      have hcolon' : ('[' :: rest)[rest.length]? = some ':' := hget.symm.trans (by simp)
      exact hcolon (List.mem_of_getElem? hcolon')
    · intro h
      exact .withPort (h.2 hcolon) hcolon hport

lemma not_mem_writeHost {host : Str} (h : '@' ∉ host) (port : UInt16) :
    '@' ∉ writeHost host ++ ':' :: displayU16 port := by
  have hport := not_mem_displayU16 port (c := '@') (by decide)
  unfold writeHost
  split <;> simp [h, hport]

lemma explicitUser_eq_some {target username rest : Str} :
    explicitUser target = some (username, rest) ↔
      target = username ++ '@' :: rest ∧ '@' ∉ rest ∧ username ≠ [] := by
  rw [explicitUser, Option.filter_eq_some_iff, rsplitOnce_eq_some, and_assoc]
  simp

lemma explicitUser_eq_none {target : Str} :
    explicitUser target = none ↔ '@' ∉ target ∨ ∃ rest, target = '@' :: rest ∧ '@' ∉ rest := by
  rw [explicitUser, Option.filter_eq_none_iff]
  constructor
  · intro h
    by_cases hat : '@' ∈ target
    · cases hsplit : rsplitOnce '@' target with
      | none => exact absurd hat (rsplitOnce_eq_none.mp hsplit)
      | some parts =>
          obtain ⟨username, rest⟩ := parts
          obtain ⟨rfl, hrest⟩ := rsplitOnce_eq_some.mp hsplit
          obtain rfl : username = [] := by simpa using h _ hsplit
          exact .inr ⟨rest, rfl, hrest⟩
    · exact .inl hat
  · rintro (hat | ⟨rest, rfl, hrest⟩) parts hsplit
    · rw [rsplitOnce_eq_none.mpr hat] at hsplit
      cases hsplit
    · have hparts : rsplitOnce '@' ('@' :: rest) = some ([], rest) :=
        rsplitOnce_eq_some.mpr ⟨rfl, hrest⟩
      rw [hparts] at hsplit
      obtain rfl := Option.some.inj hsplit
      simp

/-! ## The targets that are misread -/

/-- The part of a target that is read as a host and a port. -/
def hostPart (target : Str) : Str :=
  match explicitUser target with
  | some (_, rest) => rest
  | none => target

/-- What is read as a host and a port, but not as it should be. -/
inductive HostFlaw : Str → Prop
  /-- `:port` -/
  | noHost {portText : Str} {port : UInt16} (hport : parseU16 portText = some port) :
      HostFlaw (':' :: portText)
  /-- `[]:port` -/
  | emptyBrackets {portText : Str} {port : UInt16} (hport : PortText portText port) :
      HostFlaw ('[' :: ']' :: ':' :: portText)
  /-- `[[host]:port`, without a colon in the host -/
  | twoOpen {host portText : Str} {port : UInt16} (hclosed : ']' ∉ host) (hcolon : ':' ∉ host)
      (hport : PortText portText port) : HostFlaw ('[' :: '[' :: (host ++ ']' :: ':' :: portText))
  /-- an address with a closing bracket in it, but not in brackets -/
  | notOpen {host : Str} (hopen : host.head? ≠ some '[') (hcolons : 2 ≤ host.count ':')
      (hclosed : ']' ∈ host) : HostFlaw host
  /-- `@host` -/
  | atHost {host : Str} (hcolons : host.count ':' ≠ 1) : HostFlaw ('@' :: host)
  /-- `@host:port` -/
  | atHostPort {host portText : Str} {port : UInt16} (hcolon : ':' ∉ host)
      (hport : parseU16 portText = some port) : HostFlaw ('@' :: (host ++ ':' :: portText))

/-- A host that is there, has no `@`, and can be told from what is around it. -/
def GoodHost (host : Str) : Prop := host ≠ [] ∧ '@' ∉ host ∧ Delimited host

lemma HostAndPort.unique {text host host' : Str} {port port' : UInt16}
    (h : HostAndPort text host port) (h' : HostAndPort text host' port') : host = host' := by
  have heq := (parseHostAndPort_ok.mpr h).symm.trans (parseHostAndPort_ok.mpr h')
  exact (Prod.mk.inj (Except.ok.inj heq)).1

/-- A flaw is not noticed, and the host that is read is not a good one. -/
lemma HostFlaw.read {text : Str} (h : HostFlaw text) :
    ∃ host port, HostAndPort text host port ∧ ¬ GoodHost host := by
  cases h with
  | noHost hport =>
      exact ⟨[], _, @HostAndPort.withPort [] _ _ (by simp) (by simp) hport, fun h => h.1 rfl⟩
  | emptyBrackets hport =>
      exact ⟨[], _, @HostAndPort.bracketed [] _ _ (by simp) hport, fun h => h.1 rfl⟩
  | @twoOpen host portText port hclosed hcolon hport =>
      have hclosed : ']' ∉ '[' :: host := by simpa using hclosed
      have hcolon : ':' ∉ '[' :: host := by simpa using hcolon
      exact ⟨'[' :: host, port, .bracketed hclosed hport, fun h => h.2.2.2 hcolon rfl⟩
  | notOpen hopen hcolons hclosed =>
      have hne : text ≠ [] := by
        rintro rfl
        simp at hcolons
      have hcolon : ':' ∈ text := List.count_pos_iff.mp (by omega)
      exact ⟨text, 22, .alone hne hopen (by omega), fun h => h.2.2.1 hcolon hclosed⟩
  | @atHost host hcolons =>
      exact ⟨'@' :: host, 22, .alone (by simp) (by simp) (by simpa using hcolons),
        fun h => h.2.1 List.mem_cons_self⟩
  | @atHostPort host portText port hcolon hport =>
      have hcolon : ':' ∉ '@' :: host := by simpa using hcolon
      exact ⟨'@' :: host, port, .withPort (by simp) hcolon hport,
        fun h => h.2.1 List.mem_cons_self⟩

/-- Apart from the flaws, a text after the user is read as a good host. -/
lemma goodHost_iff {text host : Str} {port : UInt16} (h : HostAndPort text host port)
    (hat : '@' ∈ text → text.head? = some '@') : GoodHost host ↔ ¬ HostFlaw text := by
  constructor
  · intro hgood hflaw
    obtain ⟨host', port', hread, hbad⟩ := hflaw.read
    rw [← h.unique hread] at hbad
    exact hbad hgood
  · intro hflaw
    cases h with
    | @bracketed host portText port hclosed hport =>
        refine ⟨?_, fun hmem => ?_, fun _ => hclosed, fun hcolon hopen => ?_⟩
        · rintro rfl
          exact hflaw (.emptyBrackets hport)
        · have hhead := hat (List.mem_cons_of_mem _ (List.mem_append_left _ hmem))
          cases hhead
        · obtain ⟨rest, rfl⟩ := List.head?_eq_some_iff.mp hopen
          exact hflaw (.twoOpen (List.not_mem_of_not_mem_cons hclosed)
            (List.not_mem_of_not_mem_cons hcolon) hport)
    | @withPort host portText port hopen hcolon hport =>
        have hne : host ≠ [] := by
          rintro rfl
          exact hflaw (.noHost hport)
        refine ⟨hne, fun hmem => ?_, fun h => absurd h hcolon, fun _ => hopen⟩
        have hhead := hat (List.mem_append_left _ hmem)
        rw [List.head?_append_of_ne_nil _ hne] at hhead
        obtain ⟨rest, rfl⟩ := List.head?_eq_some_iff.mp hhead
        exact hflaw (.atHostPort (List.not_mem_of_not_mem_cons hcolon) hport)
    | alone hne hopen hcolons =>
        refine ⟨hne, fun hmem => ?_, fun hcolon hclosed => ?_, fun _ => hopen⟩
        · obtain ⟨rest, rfl⟩ := List.head?_eq_some_iff.mp (hat hmem)
          exact hflaw (.atHost (by simpa using hcolons))
        · have hpos := List.count_pos_iff.mpr hcolon
          exact hflaw (.notOpen hopen (by omega) hclosed)

/-! ## Reading targets -/

section

variable {env : UserEnv} {user : Str}

/-- The user of a target, with a default. -/
def userPart (user target : Str) : Str :=
  match explicitUser target with
  | some (username, _) => username
  | none => user

variable (user) in
lemma parts_of_at {username rest : Str} (huser : username ≠ []) (hrest : '@' ∉ rest) :
    userPart user (username ++ '@' :: rest) = username ∧
      hostPart (username ++ '@' :: rest) = rest := by
  have hsplit := explicitUser_eq_some.mpr ⟨rfl, hrest, huser⟩
  simp [userPart, hostPart, hsplit]

variable (user) in
lemma parts_of_not_mem {text : Str} (h : '@' ∉ text) :
    userPart user text = user ∧ hostPart text = text := by
  have hsplit := explicitUser_eq_none.mpr (.inl h)
  simp [userPart, hostPart, hsplit]

/-- What follows the user has no `@`, unless it is all there is. -/
lemma head_hostPart {text : Str} (h : '@' ∈ hostPart text) :
    (hostPart text).head? = some '@' := by
  cases hsplit : explicitUser text with
  | some parts =>
      obtain ⟨username, rest⟩ := parts
      obtain ⟨-, hrest, -⟩ := explicitUser_eq_some.mp hsplit
      simp only [hostPart, hsplit] at h
      exact absurd h hrest
  | none =>
      simp only [hostPart, hsplit] at h ⊢
      rcases explicitUser_eq_none.mp hsplit with hnone | ⟨rest, rfl, -⟩
      · exact absurd h hnone
      · rfl

lemma userPart_ne_nil (hne : user ≠ []) (text : Str) : userPart user text ≠ [] := by
  cases hsplit : explicitUser text with
  | some parts =>
      obtain ⟨username, rest⟩ := parts
      simpa [userPart, hsplit] using (explicitUser_eq_some.mp hsplit).2.2
  | none => simpa [userPart, hsplit] using hne

/-- What a target is read as. -/
lemma parse_iff {text : Str} {target : SftpTarget} :
    parse env text = .ok target ↔
      (match explicitUser text with
        | some parts => target.username = parts.1
        | none => defaultUsername env = .ok target.username) ∧
        HostAndPort (hostPart text) target.host target.port := by
  obtain ⟨username, host, port⟩ := target
  rw [parse, hostPart, ← parseHostAndPort_ok]
  cases explicitUser text with
  | some parts =>
      simp only
      cases parseHostAndPort parts.2 <;> simp [Prod.ext_iff, eq_comm]
  | none =>
      cases defaultUsername env with
      | error e => simp [Except.map]
      | ok user =>
          simp only [Except.map]
          cases parseHostAndPort text <;> simp [Prod.ext_iff]

/-- What a target is read as, with a default user. -/
lemma parse_ok (henv : defaultUsername env = .ok user) {text : Str} {target : SftpTarget} :
    parse env text = .ok target ↔
      target.username = userPart user text ∧
        HostAndPort (hostPart text) target.host target.port := by
  rw [parse_iff, userPart, henv]
  cases explicitUser text <;> simp [eq_comm]

/-- A target that has been read is sound if its host is good. -/
lemma sound_iff (henv : defaultUsername env = .ok user) {target : SftpTarget}
    (huser : target.username ≠ []) : target.Sound env ↔ GoodHost target.host := by
  have hback : '@' ∉ target.host →
      (parse env target.write = .ok target ↔ Delimited target.host) := by
    intro hat
    obtain ⟨hname, hhost⟩ := parts_of_at user huser (not_mem_writeHost hat target.port)
    rw [parse_ok henv, write, hname, hhost, writeHost_iff]
    exact and_iff_right rfl
  constructor
  · intro h
    exact ⟨h.host_ne, h.no_at, (hback h.no_at).mp h.reads_back⟩
  · intro ⟨hne, hat, hdelimited⟩
    exact ⟨hne, hat, (hback hat).mpr hdelimited⟩

/-- A host name or an IPv4 address. -/
def PlainHost (host : Str) : Prop :=
  host ≠ [] ∧ '@' ∉ host ∧ ':' ∉ host ∧ host.head? ≠ some '['

/-- The documented forms and their parts, with a default user. -/
inductive Documented (user : Str) : Str → SftpTarget → Prop
  | userHost {username host : Str} (huser : username ≠ []) (hhost : PlainHost host) :
      Documented user (username ++ '@' :: host) ⟨username, host, 22⟩
  | userHostPort {username host portText : Str} {port : UInt16} (huser : username ≠ [])
      (hhost : PlainHost host) (hport : parseU16 portText = some port) :
      Documented user (username ++ '@' :: (host ++ ':' :: portText)) ⟨username, host, port⟩
  | host {host : Str} (hhost : PlainHost host) : Documented user host ⟨user, host, 22⟩
  | hostPort {host portText : Str} {port : UInt16} (hhost : PlainHost host)
      (hport : parseU16 portText = some port) :
      Documented user (host ++ ':' :: portText) ⟨user, host, port⟩
  | userIpv6Port {username ipv6 portText : Str} {port : UInt16} (huser : username ≠ [])
      (hat : '@' ∉ ipv6) (hclosed : ']' ∉ ipv6) (hport : parseU16 portText = some port) :
      Documented user (username ++ '@' :: '[' :: (ipv6 ++ ']' :: ':' :: portText))
        ⟨username, ipv6, port⟩

lemma PlainHost.alone {host : Str} (h : PlainHost host) : HostAndPort host host 22 := by
  obtain ⟨hne, -, hcolon, hopen⟩ := h
  refine .alone hne hopen ?_
  rw [List.count_eq_zero_of_not_mem hcolon]
  decide

/-- Every documented form is read as its parts. -/
lemma parse_documented (henv : defaultUsername env = .ok user) {text : Str} {target : SftpTarget}
    (h : Documented user text target) : parse env text = .ok target := by
  rw [parse_ok henv]
  have hplain : ∀ {host portText : Str} {port : UInt16}, '@' ∉ host →
      parseU16 portText = some port → '@' ∉ host ++ ':' :: portText := by
    intro host portText port hat hport
    have hat' := not_mem_of_parseU16 hport (c := '@') (by decide) (by decide)
    simp [hat, hat']
  cases h with
  | userHost huser hhost =>
      obtain ⟨hname, hrest⟩ := parts_of_at user huser hhost.2.1
      rw [hname, hrest]
      exact ⟨rfl, hhost.alone⟩
  | userHostPort huser hhost hport =>
      obtain ⟨hname, hrest⟩ := parts_of_at user huser (hplain hhost.2.1 hport)
      rw [hname, hrest]
      exact ⟨rfl, .withPort hhost.2.2.2 hhost.2.2.1 hport⟩
  | host hhost =>
      obtain ⟨hname, hrest⟩ := parts_of_not_mem user hhost.2.1
      rw [hname, hrest]
      exact ⟨rfl, hhost.alone⟩
  | hostPort hhost hport =>
      obtain ⟨hname, hrest⟩ := parts_of_not_mem user (hplain hhost.2.1 hport)
      rw [hname, hrest]
      exact ⟨rfl, .withPort hhost.2.2.2 hhost.2.2.1 hport⟩
  | @userIpv6Port username ipv6 portText port huser hat hclosed hport =>
      have hat' := not_mem_of_parseU16 hport (c := '@') (by decide) (by decide)
      have hrest' : '@' ∉ '[' :: (ipv6 ++ ']' :: ':' :: portText) := by simp [hat, hat']
      obtain ⟨hname, hrest⟩ := parts_of_at user huser hrest'
      rw [hname, hrest]
      exact ⟨rfl, .bracketed hclosed (.inr hport)⟩

/-- **Targets are read soundly, but for the flaws.**  With a default user that is not empty, what a
text is read as has a host without `@` and can be written and read again, if and only if the part
after the user is not of one of the kinds of `HostFlaw`.  Every documented form is read as its
parts. -/
theorem parse_sound_iff (henv : defaultUsername env = .ok user) (huser : user ≠ []) :
    (∀ text, (∀ target, parse env text = .ok target → target.Sound env) ↔
      ¬ HostFlaw (hostPart text)) ∧
    ∀ text target, Documented user text target → parse env text = .ok target := by
  refine ⟨fun text => ⟨fun h hflaw => ?_, fun hflaw target htarget => ?_⟩,
    fun text target => parse_documented henv⟩
  · obtain ⟨host, port, hread, hbad⟩ := hflaw.read
    have hparse : parse env text = .ok ⟨userPart user text, host, port⟩ :=
      (parse_ok henv).mpr ⟨rfl, hread⟩
    exact hbad ((sound_iff henv (userPart_ne_nil huser text)).mp (h _ hparse))
  · obtain ⟨hname, hread⟩ := (parse_ok henv).mp htarget
    refine (sound_iff henv ?_).mpr ((goodHost_iff hread head_hostPart).mpr hflaw)
    rw [hname]
    exact userPart_ne_nil huser text

end

/-- The user `a` of the environment. -/
def userA : UserEnv := ⟨some ['a'], none⟩

/-- A default user, and the text `@h`. -/
theorem parse_sound_iff_userA :
    (∀ text, (∀ target, parse userA text = .ok target → target.Sound userA) ↔
      ¬ HostFlaw (hostPart text)) ∧
    ∀ text target, Documented ['a'] text target → parse userA text = .ok target :=
  parse_sound_iff rfl (by decide)

/-- The text `@h` is read as a host with an `@`. -/
theorem at_host_accepted :
    ¬ ∀ target, parse userA ['@', 'h'] = .ok target → target.Sound userA := by
  intro h
  have hparse : parse userA ['@', 'h'] = .ok ⟨['a'], ['@', 'h'], 22⟩ := rfl
  exact (h _ hparse).no_at (by decide)

end SftpTarget

end CacheShfs
