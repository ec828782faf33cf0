import CacheShfs.Cli.Connect
import CacheShfs.Sftp.HostKeys

/-!
# Making a connection

`connect_async` of `crates/cacheshfs-sftp/src/lib.rs`: the server's key is checked, the user is
authenticated with the keys of the agent and of the identity files, and the SFTP subsystem is
started.

The SSH session belongs to `russh` and is a parameter, and so is what the machine holds: the agents
that can be reached and the identity files.  Of `client::connect` it is relied on that it asks the
handler about the key of the server, and fails where the handler says no (`SshSession.Asks`).  Each
key that is offered to the server is kept with its answer; this is history, and no function reads
it.

`connect_offers`: no key is offered to a server that has not been vetted, keys are offered in order
and each once, and none after one that has been accepted.
-/

namespace CacheShfs

/-- `russh::Error`, as far as it is looked at, with its text. -/
inductive SshError
  | io (text : String)
  /-- A timeout, a hang-up or a disconnect. -/
  | lost (text : String)
  | unknownKey
  | keyChanged
  | notAuthenticated
  | noAuthMethod
  | other (text : String)

/-- `map_russh_error`. -/
def mapRusshError : SshError → Error
  | .io text => .unavailable ("ssh connection error: " ++ text)
  | .lost text => .unavailable ("ssh connection lost: " ++ text)
  | .unknownKey => .permissionDenied
  | .keyChanged => .permissionDenied
  | .notAuthenticated => .permissionDenied
  | .noAuthMethod => .permissionDenied
  | .other text => .remoteBackend ("ssh error: " ++ text)

/-- `AgentIdentity`. -/
inductive AgentIdentity (κ : Type)
  | publicKey (key : κ)
  | certificate

/-- A key that is offered to the server: one that an agent signs with, or one from a file; and the
hash of an RSA signature. -/
inductive Credential (κ ς η : Type)
  | agent (key : κ) (hash : Option η)
  | file (key : ς) (hash : Option η)

/-- What the machine holds. -/
structure KeyRing (κ ς : Type) where
  /-- The agents, in the order of `try_agent_auth` on the platform: `none` where one cannot be
  reached, or does not give its identities. -/
  agents : List (Option (List (AgentIdentity κ)))
  isRsa : κ → Bool
  /-- `Path::exists`. -/
  present : Str → Bool
  /-- `load_secret_key`. -/
  loadSecretKey : Str → Option Str → Option ς

/-- The session of `russh`, with the server made explicit. -/
structure SshSession (σ κ ς η ω : Type) where
  /-- The key that a server presents. -/
  presents : Str → UInt16 → σ → Option κ
  /-- `client::connect`, with the `check_server_key` of the handler, which may change the user's
  files. -/
  connect : Str → UInt16 → (κ → HostFiles ω → Bool × HostFiles ω) → σ → HostFiles ω →
    Except SshError Unit × σ × HostFiles ω
  bestSupportedRsaHash : σ → Option η × σ
  /-- `authenticate_publickey`, and whether it succeeds. -/
  authenticatePublickey : Str → Credential κ ς η → σ → Bool × σ
  channelOpenSession : σ → Except SshError Unit × σ
  requestSubsystem : σ → Except SshError Unit × σ
  newSession : σ → Except SftpError Unit × σ

/-- A connection is made only with a server whose key the handler has been asked about, and has
accepted. -/
structure SshSession.Asks {σ κ ς η ω : Type} (T : SshSession σ κ ς η ω) : Prop where
  connects : ∀ host port checkServerKey server files,
    (T.connect host port checkServerKey server files).1 = .ok () →
      ∃ key, T.presents host port server = some key ∧ (checkServerKey key files).1 = true

/-- The client: the server it talks to, the user's files, and the keys that it has offered, with the
answers. -/
structure Client (σ κ ς η ω : Type) where
  server : σ
  files : HostFiles ω
  offered : List (Credential κ ς η × Bool)

namespace SshSession

variable {σ κ ς η ω : Type} (T : SshSession σ κ ς η ω)

/-- One key is offered. -/
def offer (user : Str) (credential : Credential κ ς η) (c : Client σ κ ς η ω) :
    Bool × Client σ κ ς η ω :=
  let (success, server) := T.authenticatePublickey user credential c.server
  (success, { c with server := server, offered := c.offered ++ [(credential, success)] })

/-- The loop of `authenticate_with_agent`. -/
def authenticateWithAgent (ring : KeyRing κ ς) (user : Str) (rsaHash : Option η) :
    List (AgentIdentity κ) → Client σ κ ς η ω → Bool × Client σ κ ς η ω
  | [], c => (false, c)
  | .certificate :: rest, c => authenticateWithAgent ring user rsaHash rest c
  | .publicKey key :: rest, c =>
      match T.offer user (.agent key (if ring.isRsa key then rsaHash else none)) c with
      | (true, c) => (true, c)
      | (false, c) => authenticateWithAgent ring user rsaHash rest c

/-- `try_agent_auth`. -/
def tryAgentAuth (ring : KeyRing κ ς) (user : Str) (rsaHash : Option η) :
    List (Option (List (AgentIdentity κ))) → Client σ κ ς η ω → Bool × Client σ κ ς η ω
  | [], c => (false, c)
  | none :: rest, c => tryAgentAuth ring user rsaHash rest c
  | some identities :: rest, c =>
      match T.authenticateWithAgent ring user rsaHash identities c with
      | (true, c) => (true, c)
      | (false, c) => tryAgentAuth ring user rsaHash rest c

/-- The loop of `authenticate` over the identity files. -/
def tryIdentityFiles (ring : KeyRing κ ς) (user : Str) (passphrase : Option Str)
    (rsaHash : Option η) : List Str → Client σ κ ς η ω → Bool × Client σ κ ς η ω
  | [], c => (false, c)
  | path :: rest, c =>
      if ring.present path then
        match ring.loadSecretKey path passphrase with
        | none => tryIdentityFiles ring user passphrase rsaHash rest c
        | some key =>
            match T.offer user (.file key rsaHash) c with
            | (true, c) => (true, c)
            | (false, c) => tryIdentityFiles ring user passphrase rsaHash rest c
      else tryIdentityFiles ring user passphrase rsaHash rest c

/-- `authenticate`. -/
def authenticate (ring : KeyRing κ ς) (options : SftpConnectOptions) (c : Client σ κ ς η ω) :
    Except Error Unit × Client σ κ ς η ω :=
  let (rsaHash, server) := T.bestSupportedRsaHash c.server
  let c := { c with server := server }
  let user := options.target.username
  let (success, c) :=
    if options.useAgent then T.tryAgentAuth ring user rsaHash ring.agents c else (false, c)
  if success then (.ok (), c)
  else
    match T.tryIdentityFiles ring user options.passphrase rsaHash options.identityFiles c with
    | (true, c) => (.ok (), c)
    | (false, c) => (.error .permissionDenied, c)

/-- The handler of `connect_async`. -/
def handlerOf (options : SftpConnectOptions) : ClientHandler where
  knownHostsFiles := options.knownHostsFiles
  acceptUnknownHosts := options.acceptUnknownHosts
  host := options.target.host
  port := options.target.port

/-- `client::connect` as `connect_async` calls it. -/
def connectTo (K : KnownHosts κ ω) (options : SftpConnectOptions) (console : Console)
    (c : Client σ κ ς η ω) : Except Error Unit × Client σ κ ς η ω :=
  let (answer, server, files) := T.connect options.target.host options.target.port
    (K.checkServerKey (handlerOf options) console) c.server c.files
  (answer.mapError mapRusshError, { c with server := server, files := files })

/-- The last steps of `connect_async`: a channel, and the SFTP subsystem on it. -/
def openSftp (c : Client σ κ ς η ω) : Except Error Unit × Client σ κ ς η ω :=
  match T.channelOpenSession c.server with
  | (.error e, server) => (.error (mapRusshError e), { c with server := server })
  | (.ok (), server) =>
      match T.requestSubsystem server with
      | (.error e, server) => (.error (mapRusshError e), { c with server := server })
      | (.ok (), server) =>
          match T.newSession server with
          | (.error e, server) => (.error (mapSftpError e), { c with server := server })
          | (.ok (), server) => (.ok (), { c with server := server })

/-- `connect_async`. -/
def connectAsync (K : KnownHosts κ ω) (ring : KeyRing κ ς)
    (options : SftpConnectOptions) (console : Console) (c : Client σ κ ς η ω) :
    Except Error Unit × Client σ κ ς η ω :=
  match T.connectTo K options console c with
  | (.error e, c) => (.error e, c)
  | (.ok (), c) =>
      match T.authenticate ring options c with
      | (.error e, c) => (.error e, c)
      | (.ok (), c) => T.openSftp c

/-! ## One loop over all keys -/

/-- The keys that an agent's identities are offered as. -/
def agentKeys (ring : KeyRing κ ς) (rsaHash : Option η) (identities : List (AgentIdentity κ)) :
    List (Credential κ ς η) :=
  identities.filterMap fun
    | .publicKey key => some (.agent key (if ring.isRsa key then rsaHash else none))
    | .certificate => none

/-- The keys of the identity files that are there and can be read. -/
def fileKeys (ring : KeyRing κ ς) (passphrase : Option Str) (rsaHash : Option η)
    (paths : List Str) : List (Credential κ ς η) :=
  (paths.filter ring.present).filterMap fun path =>
    (ring.loadSecretKey path passphrase).map fun key => .file key rsaHash

/-- The keys that can be offered, in order: those of the agents, and then those of the files. -/
def candidates (ring : KeyRing κ ς) (options : SftpConnectOptions) (rsaHash : Option η) :
    List (Credential κ ς η) :=
  (if options.useAgent then
    ring.agents.flatMap fun agent => agentKeys ring rsaHash (agent.getD []) else []) ++
      fileKeys ring options.passphrase rsaHash options.identityFiles

/-- Keys are offered until one is accepted. -/
def offers (user : Str) : List (Credential κ ς η) → Client σ κ ς η ω → Bool × Client σ κ ς η ω
  | [], c => (false, c)
  | credential :: rest, c =>
      match T.offer user credential c with
      | (true, c) => (true, c)
      | (false, c) => offers user rest c

variable {T}

lemma offers_append (user : Str) (first rest : List (Credential κ ς η))
    (c : Client σ κ ς η ω) :
    T.offers user (first ++ rest) c =
      match T.offers user first c with
      | (true, c) => (true, c)
      | (false, c) => T.offers user rest c := by
  induction first generalizing c with
  | nil => rfl
  | cons credential first ih =>
      rw [List.cons_append, offers, offers]
      cases T.offer user credential c with
      | mk success c' =>
          cases success with
          | true => rfl
          | false => exact ih c'

lemma authenticateWithAgent_eq (ring : KeyRing κ ς) (user : Str) (rsaHash : Option η)
    (identities : List (AgentIdentity κ)) (c : Client σ κ ς η ω) :
    T.authenticateWithAgent ring user rsaHash identities c =
      T.offers user (agentKeys ring rsaHash identities) c := by
  induction identities generalizing c with
  | nil => rfl
  | cons identity rest ih =>
      cases identity with
      | certificate => exact ih c
      | publicKey key =>
          have hcons : agentKeys ring rsaHash (.publicKey key :: rest) =
              (.agent key (if ring.isRsa key then rsaHash else none) : Credential κ ς η) ::
                agentKeys ring rsaHash rest := rfl
          rw [authenticateWithAgent, hcons, offers]
          cases T.offer user (.agent key (if ring.isRsa key then rsaHash else none)) c with
          | mk success c' =>
              cases success with
              | true => rfl
              | false => exact ih c'

lemma tryAgentAuth_eq (ring : KeyRing κ ς) (user : Str) (rsaHash : Option η)
    (agents : List (Option (List (AgentIdentity κ)))) (c : Client σ κ ς η ω) :
    T.tryAgentAuth ring user rsaHash agents c =
      T.offers user (agents.flatMap fun agent => agentKeys ring rsaHash (agent.getD [])) c := by
  induction agents generalizing c with
  | nil => rfl
  | cons agent rest ih =>
      rw [List.flatMap_cons]
      cases agent with
      | none => exact ih c
      | some identities =>
          rw [tryAgentAuth, Option.getD_some, offers_append, authenticateWithAgent_eq]
          cases T.offers user (agentKeys ring rsaHash identities) c with
          | mk success c' =>
              cases success with
              | true => rfl
              | false => exact ih c'

lemma tryIdentityFiles_eq (ring : KeyRing κ ς) (user : Str) (passphrase : Option Str)
    (rsaHash : Option η) (paths : List Str) (c : Client σ κ ς η ω) :
    T.tryIdentityFiles ring user passphrase rsaHash paths c =
      T.offers user (fileKeys ring passphrase rsaHash paths) c := by
  induction paths generalizing c with
  | nil => rfl
  | cons path rest ih =>
      rw [tryIdentityFiles]
      by_cases hpresent : ring.present path = true
      · rw [if_pos hpresent, fileKeys, List.filter_cons_of_pos hpresent]
        cases hload : ring.loadSecretKey path passphrase with
        | none =>
            rw [List.filterMap_cons_none (by rw [hload]; rfl)]
            exact ih c
        | some key =>
            rw [List.filterMap_cons_some (by rw [hload]; rfl), offers]
            simp only
            cases T.offer user (.file key rsaHash) c with
            | mk success c' =>
                cases success with
                | true => rfl
                | false => exact ih c'
      · rw [if_neg hpresent, fileKeys, List.filter_cons_of_neg hpresent]
        exact ih c

/-- The agents are asked only where the options say so. -/
lemma agents_eq (ring : KeyRing κ ς) (options : SftpConnectOptions) (rsaHash : Option η)
    (c : Client σ κ ς η ω) :
    (if options.useAgent then
        T.tryAgentAuth ring options.target.username rsaHash ring.agents c else (false, c)) =
      T.offers options.target.username (if options.useAgent then
        ring.agents.flatMap fun agent => agentKeys ring rsaHash (agent.getD []) else []) c := by
  split
  · exact tryAgentAuth_eq ring _ rsaHash ring.agents c
  · rfl

/-- Authentication is one loop over all keys. -/
lemma authenticate_eq (ring : KeyRing κ ς) (options : SftpConnectOptions)
    (c : Client σ κ ς η ω) :
    T.authenticate ring options c =
      match T.offers options.target.username
          (candidates ring options (T.bestSupportedRsaHash c.server).1)
          { c with server := (T.bestSupportedRsaHash c.server).2 } with
      | (true, c) => (.ok (), c)
      | (false, c) => (.error .permissionDenied, c) := by
  rw [authenticate, candidates, offers_append]
  simp only
  rw [agents_eq]
  cases T.offers options.target.username (if options.useAgent then
      ring.agents.flatMap fun agent => agentKeys ring (T.bestSupportedRsaHash c.server).1
        (agent.getD []) else []) { c with server := (T.bestSupportedRsaHash c.server).2 } with
  | mk success c' =>
      cases success with
      | true => rfl
      | false =>
          simp only [Bool.false_eq_true, if_false]
          rw [tryIdentityFiles_eq]

/-! ## What is offered -/

lemma offer_eq {user : Str} {key : Credential κ ς η} {c c' : Client σ κ ς η ω} {success : Bool}
    (h : T.offer user key c = (success, c')) :
    c'.offered = c.offered ++ [(key, success)] ∧ c'.files = c.files := by
  obtain ⟨rfl, rfl⟩ := Prod.mk.inj h
  exact ⟨rfl, rfl⟩

/-- What has been offered after one loop: keys in order, each with its answer, and none after one
that has been accepted. -/
lemma offers_offered (user : Str) (keys : List (Credential κ ς η)) (c : Client σ κ ς η ω) :
    ∃ answers, (T.offers user keys c).2.offered = c.offered ++ answers ∧
      (T.offers user keys c).2.files = c.files ∧
      answers.map Prod.fst <+: keys ∧
      (if (T.offers user keys c).1 then ∃ refused key, answers = refused ++ [(key, true)] ∧
          ∀ x ∈ refused, x.2 = false
        else answers.map Prod.fst = keys ∧ ∀ x ∈ answers, x.2 = false) := by
  induction keys generalizing c with
  | nil =>
      refine ⟨[], (List.append_nil _).symm, rfl, List.nil_prefix, ?_⟩
      rw [offers, if_neg Bool.false_ne_true]
      exact ⟨rfl, nofun⟩
  | cons key rest ih =>
      rw [offers]
      cases hoffer : T.offer user key c with
      | mk success c' =>
          obtain ⟨hoffered, hfiles⟩ := offer_eq hoffer
          cases success with
          | true =>
              refine ⟨[(key, true)], hoffered, hfiles, ?_, ?_⟩
              · exact (List.prefix_cons_inj key).mpr List.nil_prefix
              · exact ⟨[], key, rfl, nofun⟩
          | false =>
              obtain ⟨answers, hanswers, hsame, hsublist, hend⟩ := ih c'
              refine ⟨(key, false) :: answers, ?_, hsame.trans hfiles, ?_, ?_⟩
              · rw [hanswers, hoffered, List.append_assoc]
                rfl
              · exact (List.prefix_cons_inj key).mpr hsublist
              · split at hend
                · next haccepted =>
                    obtain ⟨refused, last, rfl, hrefused⟩ := hend
                    rw [if_pos haccepted]
                    refine ⟨(key, false) :: refused, last, rfl, fun x hx => ?_⟩
                    rcases List.mem_cons.mp hx with rfl | hx
                    · rfl
                    · exact hrefused x hx
                · next hrefused =>
                    rw [if_neg hrefused]
                    refine ⟨congrArg (key :: ·) hend.1, fun x hx => ?_⟩
                    rcases List.mem_cons.mp hx with rfl | hx
                    · rfl
                    · exact hend.2 x hx

/-- The user, or a file, vouches for the key of the server; or the options ask for nothing. -/
def Vetted (K : KnownHosts κ ω) (handler : ClientHandler) (console : Console)
    (key : κ) (files : HostFiles ω) : Prop :=
  match K.classifyHostKey handler files key with
  | .known => True
  | .changed => False
  | .unknown => handler.acceptUnknownHosts = true ∨ console.isTerminal = true ∧
      ∃ answer, console.line = some answer ∧
        eqIgnoreAsciiCase (trim answer) KnownHosts.yes = true

lemma vetted_of_accepted {K : KnownHosts κ ω} {handler : ClientHandler}
    {console : Console} {key : κ} {files : HostFiles ω}
    (h : (K.checkServerKey handler console key files).1 = true) :
    Vetted K handler console key files := by
  simp only [KnownHosts.checkServerKey] at h
  simp only [Vetted]
  cases hstatus : K.classifyHostKey handler files key with
  | known => trivial
  | changed =>
      rw [hstatus] at h
      cases h
  | unknown =>
      simp only [hstatus, KnownHosts.promptUnknownHost] at h ⊢
      split at h
      · next haccept => exact .inl haccept
      · right
        split at h
        · next hterminal =>
            split at h
            · cases h
            · next answer hline =>
                split at h
                · next hyes => exact ⟨hterminal, answer, hline, hyes⟩
                · cases h
        · cases h

/-- What a connect leaves before the keys are offered. -/
lemma connect_vets (hT : T.Asks) {K : KnownHosts κ ω} {options : SftpConnectOptions}
    {console : Console} {c c' : Client σ κ ς η ω} {answer : Except Error Unit}
    (h : T.connectTo K options console c = (answer, c')) :
    c'.offered = c.offered ∧ (answer = .ok () → ∃ key,
      T.presents options.target.host options.target.port c.server = some key ∧
        Vetted K (handlerOf options) console key c.files) := by
  obtain ⟨rfl, rfl⟩ := Prod.mk.inj h
  refine ⟨rfl, fun hok => ?_⟩
  have hconnected : (T.connect options.target.host options.target.port
      (K.checkServerKey (handlerOf options) console) c.server c.files).1 = .ok () := by
    revert hok
    cases (T.connect options.target.host options.target.port
        (K.checkServerKey (handlerOf options) console) c.server c.files).1 with
    | ok _ => exact fun _ => rfl
    | error e => exact nofun
  obtain ⟨key, hkey, haccepted⟩ := hT.connects _ _ _ _ _ hconnected
  exact ⟨key, hkey, vetted_of_accepted haccepted⟩

lemma openSftp_offered (c : Client σ κ ς η ω) : (T.openSftp c).2.offered = c.offered := by
  rw [openSftp]
  split
  · rfl
  · split
    · rfl
    · split <;> rfl

/-- What authentication has offered, and with which answers. -/
lemma authenticate_offered (ring : KeyRing κ ς) (options : SftpConnectOptions)
    {c c' : Client σ κ ς η ω} {answer : Except Error Unit} (hnone : c.offered = [])
    (h : T.authenticate ring options c = (answer, c')) :
    (∃ rsaHash, c'.offered.map Prod.fst <+: candidates ring options rsaHash) ∧
      (∀ x ∈ c'.offered.dropLast, x.2 = false) ∧
      (answer = .ok () → ∃ key, c'.offered.getLast? = some (key, true)) := by
  rw [authenticate_eq] at h
  obtain ⟨answers, hoffered, -, hinit, hend⟩ := offers_offered (T := T)
    options.target.username (candidates ring options (T.bestSupportedRsaHash c.server).1)
    { c with server := (T.bestSupportedRsaHash c.server).2 }
  cases hloop : T.offers options.target.username
      (candidates ring options (T.bestSupportedRsaHash c.server).1)
      { c with server := (T.bestSupportedRsaHash c.server).2 } with
  | mk success c₁ =>
      rw [hloop] at h hoffered hend
      simp only [hnone, List.nil_append] at hoffered
      cases success with
      | true =>
          cases h
          obtain ⟨refused, key, rfl, hrefused⟩ := hend
          rw [hoffered]
          refine ⟨⟨_, hinit⟩, ?_, fun _ => ⟨key, List.getLast?_concat⟩⟩
          rw [List.dropLast_concat]
          exact hrefused
      | false =>
          cases h
          rw [if_neg Bool.false_ne_true] at hend
          rw [hoffered]
          exact ⟨⟨_, hinit⟩, fun x hx => hend.2 x (List.dropLast_subset _ hx), nofun⟩

/-- **What a connection offers, and to whom.**  Keys are offered only to a server whose key is
recorded, or that the user or the options let through; those of the agents come before those of the
files, in order, each once; every one but the last has been refused; and a connection that has been
made has had the last one accepted. -/
theorem connect_offers (T : SshSession σ κ ς η ω) (hT : T.Asks) (K : KnownHosts κ ω)
    (ring : KeyRing κ ς) (options : SftpConnectOptions) (console : Console) (server : σ)
    (files : HostFiles ω) :
    let c := T.connectAsync K ring options console ⟨server, files, []⟩
    (c.2.offered ≠ [] → ∃ key,
      T.presents options.target.host options.target.port server = some key ∧
        Vetted K (handlerOf options) console key files) ∧
      (∃ rsaHash, c.2.offered.map Prod.fst <+: candidates ring options rsaHash) ∧
      (∀ x ∈ c.2.offered.dropLast, x.2 = false) ∧
      (c.1 = .ok () → ∃ key, c.2.offered.getLast? = some (key, true)) := by
  intro c
  cases hconnect : T.connectTo K options console ⟨server, files, []⟩ with
  | mk answer c₁ =>
      obtain ⟨hnone, hvets⟩ := connect_vets hT hconnect
      cases answer with
      | error e =>
          have hc : c = (.error e, c₁) := by simp only [c, connectAsync, hconnect]
          rw [hc, hnone]
          exact ⟨fun h => absurd rfl h, ⟨none, List.nil_prefix⟩, nofun, nofun⟩
      | ok _ =>
          cases hauth : T.authenticate ring options c₁ with
          | mk answer c₂ =>
              obtain ⟨hinit, hrefused, hlast⟩ := authenticate_offered ring options hnone hauth
              cases answer with
              | error e =>
                  have hc : c = (.error e, c₂) := by simp only [c, connectAsync, hconnect, hauth]
                  rw [hc]
                  exact ⟨fun _ => hvets rfl, hinit, hrefused, nofun⟩
              | ok _ =>
                  have hc : c = T.openSftp c₂ := by simp only [c, connectAsync, hconnect, hauth]
                  rw [hc, openSftp_offered]
                  exact ⟨fun _ => hvets rfl, hinit, hrefused, fun _ => hlast rfl⟩

/-! A server that presents the key 7 and accepts the second of two identity files. -/

/-- A session of which the server's state is not looked at. -/
def sampleSession : SshSession Unit (Str × ℕ) ℕ Unit (List (Str × UInt16 × Str × ℕ)) where
  presents _ _ _ := some (['e', 'd'], 7)
  connect _ _ checkServerKey server files :=
    let (accepted, files) := checkServerKey (['e', 'd'], 7) files
    (if accepted then .ok () else .error .unknownKey, server, files)
  bestSupportedRsaHash server := (none, server)
  authenticatePublickey _ credential server := (match credential with
    | .agent _ _ => false
    | .file key _ => key = 2, server)
  channelOpenSession server := (.ok (), server)
  requestSubsystem server := (.ok (), server)
  newSession server := (.ok (), server)

lemma sampleSession_asks : sampleSession.Asks where
  connects host port checkServerKey server files h := by
    refine ⟨(['e', 'd'], 7), rfl, ?_⟩
    simp only [sampleSession] at h
    cases haccepted : (checkServerKey (['e', 'd'], 7) files).1 with
    | true => rfl
    | false =>
        rw [haccepted] at h
        cases h

/-- Two identity files, of which the names tell the keys apart. -/
def sampleRing : KeyRing (Str × ℕ) ℕ where
  agents := []
  isRsa _ := false
  present _ := true
  loadSecretKey path _ := some path.length

/-- The options of a user who lets unknown hosts through. -/
def sampleOptions : SftpConnectOptions where
  target := ⟨['u'], ['h'], 22⟩
  knownHostsFiles := [['k']]
  acceptUnknownHosts := true
  useAgent := true
  identityFiles := [['a'], ['a', 'b'], ['c']]
  passphrase := none
  readTimeout := 30

theorem connect_offers_example :
    let c := sampleSession.connectAsync KnownHosts.listed sampleRing sampleOptions ⟨false, none⟩
      ⟨(), fun _ => none, []⟩
    c.2.offered = [(.file 1 none, false), (.file 2 none, true)] ∧
      Vetted KnownHosts.listed (handlerOf sampleOptions) ⟨false, none⟩ (['e', 'd'], 7)
        fun _ => none := by
  intro c
  have hoffered : c.2.offered = [(.file 1 none, false), (.file 2 none, true)] := rfl
  refine ⟨hoffered, ?_⟩
  obtain ⟨hvets, -⟩ := connect_offers sampleSession sampleSession_asks KnownHosts.listed sampleRing
    sampleOptions ⟨false, none⟩ () fun _ => none
  obtain ⟨key, hkey, hvetted⟩ := hvets (by rw [hoffered]; exact List.cons_ne_nil _ _)
  cases hkey
  exact hvetted

end SshSession

end CacheShfs
