import CacheShfs.Core.Text
import CacheShfs.Lib.Machine
import Mathlib.Logic.Function.Basic

/-!
# Host keys

`ClientHandler` of `crates/cacheshfs-sftp/src/lib.rs`: the key that a server presents is looked up
in the `known_hosts` files, and a user at a terminal is asked about an unknown one.

Keys, and the files that record them, belong to `russh` and are parameters: `KnownHosts` gives what
a file says of the key of a host, and what a file is after a key has been recorded in it.
`KnownHosts.Lawful` is what is relied on: where a key is recorded, another one of its algorithm has
changed; a key that is recorded is found; and a record concerns no other host and no other
algorithm.

`trust_on_first_use`: once the user has approved a key and it has been recorded, that key and no
other one of its algorithm is accepted from the host, without asking, whatever else is connected to.
-/

namespace CacheShfs

open Machine

/-- What is known of keys and of the files that record them. -/
structure KnownHosts (κ ω : Type) where
  /-- `PublicKey::algorithm`. -/
  algorithm : κ → Str
  /-- `check_known_hosts_path`: whether a file has the key of a host, with `none` for an error. -/
  check : Str → UInt16 → κ → ω → Option Bool
  /-- `learn_known_hosts_path`: a file that may not be there yet, with one more key. -/
  learn : Str → UInt16 → κ → Option ω → Option ω
  /-- The file of `learn_known_hosts`. -/
  homeFile : Option Str

/-- What is found in a file that may not be there. -/
def KnownHosts.checkFile {κ ω : Type} (K : KnownHosts κ ω) (host : Str) (port : UInt16) (key : κ) :
    Option ω → Option Bool
  | none => some false
  | some contents => K.check host port key contents

/-- **What is relied on of the files that record keys.** -/
structure KnownHosts.Lawful {κ ω : Type} (K : KnownHosts κ ω) : Prop where
  /-- Where a key is recorded for a host, another one of its algorithm is an error. -/
  changed : ∀ host port key other contents, K.check host port key contents = some true →
    K.algorithm other = K.algorithm key → other ≠ key → K.check host port other contents = none
  /-- A key that has been recorded is found, if it was no error before. -/
  learned : ∀ host port key old new, K.learn host port key old = some new →
    K.checkFile host port key old ≠ none → K.check host port key new = some true
  /-- A record says nothing about another host, or about keys of another algorithm. -/
  apart : ∀ host port key host' port' other old new, K.learn host port key old = some new →
    ¬ (host' = host ∧ port' = port) ∨ K.algorithm other ≠ K.algorithm key →
      K.check host' port' other new = K.checkFile host' port' other old

/-- The files of the user. -/
abbrev HostFiles (ω : Type) := Str → Option ω

/-- `struct ClientHandler`. -/
structure ClientHandler where
  knownHostsFiles : List Str
  acceptUnknownHosts : Bool
  host : Str
  port : UInt16

/-- `enum HostKeyStatus`. -/
inductive HostKeyStatus
  | known
  | changed
  | unknown
  deriving DecidableEq, Repr

/-- The terminal: whether there is one, and what `read_line` gives. -/
structure Console where
  isTerminal : Bool
  line : Option Str

namespace KnownHosts

variable {κ ω : Type} (K : KnownHosts κ ω)

/-- The loop of `ClientHandler::classify_host_key`. -/
def classify (host : Str) (port : UInt16) (files : HostFiles ω) (key : κ) :
    List Str → HostKeyStatus
  | [] => .unknown
  | path :: rest =>
      match files path with
      | none => classify host port files key rest
      | some contents =>
          match K.check host port key contents with
          | some true => .known
          | some false => classify host port files key rest
          | none => .changed

/-- `ClientHandler::classify_host_key`. -/
def classifyHostKey (handler : ClientHandler) (files : HostFiles ω) (key : κ) : HostKeyStatus :=
  K.classify handler.host handler.port files key handler.knownHostsFiles

/-- The answer that approves a key. -/
def yes : Str := ['y', 'e', 's']

/-- The record of an approved key.  A failure to record it is reported, and ignored. -/
def record (host : Str) (port : UInt16) (key : κ) (path : Option Str) (files : HostFiles ω) :
    HostFiles ω :=
  match path.or K.homeFile with
  | none => files
  | some path =>
      match K.learn host port key (files path) with
      | some contents => Function.update files path (some contents)
      | none => files

/-- `prompt_unknown_host`. -/
def promptUnknownHost (console : Console) (host : Str) (port : UInt16) (key : κ)
    (knownHostsPath : Option Str) (files : HostFiles ω) : Bool × HostFiles ω :=
  if console.isTerminal then
    match console.line with
    | none => (false, files)
    | some answer =>
        if eqIgnoreAsciiCase (trim answer) yes then
          (true, K.record host port key knownHostsPath files)
        else (false, files)
  else (false, files)

/-- `ClientHandler::check_server_key`. -/
def checkServerKey (handler : ClientHandler) (console : Console) (key : κ) (files : HostFiles ω) :
    Bool × HostFiles ω :=
  match K.classifyHostKey handler files key with
  | .known => (true, files)
  | .changed => (false, files)
  | .unknown =>
      if handler.acceptUnknownHosts then (true, files)
      else K.promptUnknownHost console handler.host handler.port key
        handler.knownHostsFiles.head? files

/-! ## One check -/

variable {K}

/-- Where one key is known, no other key of its algorithm is accepted. -/
lemma classify_other (hK : K.Lawful) {host : Str} {port : UInt16} {files : HostFiles ω}
    {key other : κ} (halg : K.algorithm other = K.algorithm key) (hne : other ≠ key)
    {paths : List Str} (h : K.classify host port files key paths = .known) :
    K.classify host port files other paths = .changed := by
  induction paths with
  | nil => cases h
  | cons path rest ih =>
      rw [classify] at h ⊢
      cases hfile : files path with
      | none =>
          rw [hfile] at h
          exact ih h
      | some contents =>
          simp only [hfile] at h ⊢
          cases hcheck : K.check host port key contents with
          | none =>
              rw [hcheck] at h
              cases h
          | some found =>
              rw [hcheck] at h
              cases found with
              | true => rw [hK.changed host port key other contents hcheck halg hne]
              | false =>
                  cases hother : K.check host port other contents with
                  | none => rfl
                  | some found =>
                      cases found with
                      | false => exact ih h
                      | true =>
                          -- the other key cannot be the one that is recorded
                          rw [hK.changed host port other key contents hother halg.symm hne.symm]
                            at hcheck
                          cases hcheck

/-! ## A key is recorded -/

/-- A key that is found as before in a file that has changed. -/
lemma classify_update {host : Str} {port : UInt16} {files : HostFiles ω} {key : κ} {path : Str}
    {new : ω} (h : K.check host port key new = K.checkFile host port key (files path))
    (paths : List Str) :
    K.classify host port (Function.update files path (some new)) key paths =
      K.classify host port files key paths := by
  induction paths with
  | nil => rfl
  | cons p rest ih =>
      rw [classify, classify, ih]
      by_cases hp : p = path
      · subst hp
        simp only [Function.update_self]
        rw [h]
        cases files p <;> rfl
      · rw [Function.update_of_ne hp]

/-- A key that has been recorded in the first of the files is known. -/
lemma known_of_learn (hK : K.Lawful) {host : Str} {port : UInt16} {files : HostFiles ω} {key : κ}
    {path : Str} {rest : List Str} {new : ω}
    (hunknown : K.classify host port files key (path :: rest) = .unknown)
    (hlearn : K.learn host port key (files path) = some new) :
    K.classify host port (Function.update files path (some new)) key (path :: rest) = .known := by
  have hfound : K.checkFile host port key (files path) ≠ none := by
    intro hnone
    rw [classify] at hunknown
    cases hfile : files path with
    | none =>
        rw [hfile] at hnone
        cases hnone
    | some contents =>
        rw [hfile, checkFile] at hnone
        simp only [hfile, hnone] at hunknown
        cases hunknown
  have hcheck := hK.learned host port key (files path) new hlearn hfound
  rw [classify]
  simp only [Function.update_self, hcheck]

/-! ## Runs of connections -/

end KnownHosts

/-- A connection that is being made: by whom, where the user sits, and the key of the server. -/
structure Visit (κ : Type) where
  handler : ClientHandler
  console : Console
  key : κ

namespace KnownHosts

variable {κ ω : Type} {K : KnownHosts κ ω}

/-- The files after a connection has been made. -/
def visited (K : KnownHosts κ ω) (files : HostFiles ω) (visit : Visit κ) : HostFiles ω :=
  (K.checkServerKey visit.handler visit.console visit.key files).2

/-- What a connection can do to the files: it records an unknown key. -/
lemma visited_cases (K : KnownHosts κ ω) (files : HostFiles ω) (visit : Visit κ) :
    K.visited files visit = files ∨
      K.classifyHostKey visit.handler files visit.key = .unknown ∧
        ∃ path new, K.learn visit.handler.host visit.handler.port visit.key (files path) =
            some new ∧
          K.visited files visit = Function.update files path (some new) := by
  simp only [visited, checkServerKey]
  cases hstatus : K.classifyHostKey visit.handler files visit.key with
  | known => exact .inl rfl
  | changed => exact .inl rfl
  | unknown =>
      simp only [promptUnknownHost, record]
      split
      · exact .inl rfl
      · split
        · split
          · exact .inl rfl
          · split
            · split
              · exact .inl rfl
              · next path _ =>
                  split
                  · next new hlearn => exact .inr ⟨trivial, path, new, hlearn, rfl⟩
                  · exact .inl rfl
            · exact .inl rfl
        · exact .inl rfl

/-- A known key stays known, whatever is connected to with the same files. -/
lemma known_visited (hK : K.Lawful) {host : Str} {port : UInt16} {files : HostFiles ω} {key : κ}
    {visit : Visit κ} (h : K.classify host port files key visit.handler.knownHostsFiles = .known) :
    K.classify host port (K.visited files visit) key visit.handler.knownHostsFiles = .known := by
  rcases visited_cases K files visit with hsame | ⟨hunknown, path, new, hlearn, hvisited⟩
  · rw [hsame]
    exact h
  · rw [hvisited, classify_update, h]
    apply hK.apart _ _ _ _ _ _ _ _ hlearn
    -- a key of the same algorithm would not have been unknown at this host
    by_cases hhost : host = visit.handler.host ∧ port = visit.handler.port
    · right
      intro halg
      rw [classifyHostKey, ← hhost.1, ← hhost.2] at hunknown
      by_cases heq : visit.key = key
      · rw [heq, h] at hunknown
        cases hunknown
      · rw [classify_other hK halg.symm heq h] at hunknown
        cases hunknown
    · exact .inl hhost

/-- A key that the user has approved is known from then on, if it can be recorded. -/
lemma known_of_approved (hK : K.Lawful) {files : HostFiles ω} {first : Visit κ}
    (hunknown : K.classifyHostKey first.handler files first.key = .unknown)
    (hasks : first.handler.acceptUnknownHosts = false)
    (hrecords : ∃ path ∈ first.handler.knownHostsFiles.head?,
      (K.learn first.handler.host first.handler.port first.key (files path)).isSome)
    (haccepted : (K.checkServerKey first.handler first.console first.key files).1 = true) :
    K.classify first.handler.host first.handler.port (K.visited files first) first.key
      first.handler.knownHostsFiles = .known := by
  obtain ⟨path, hpath, hsome⟩ := hrecords
  obtain ⟨new, hlearn⟩ := Option.isSome_iff_exists.mp hsome
  obtain ⟨rest, hpaths⟩ : ∃ rest, first.handler.knownHostsFiles = path :: rest := by
    cases hlist : first.handler.knownHostsFiles with
    | nil =>
        rw [hlist] at hpath
        cases hpath
    | cons p rest =>
        rw [hlist] at hpath
        exact ⟨rest, by rw [Option.some.inj hpath]⟩
  have hvisited : K.visited files first = Function.update files path (some new) := by
    simp only [checkServerKey, hunknown, hasks, Bool.false_eq_true, if_false,
      promptUnknownHost] at haccepted
    simp only [visited, checkServerKey, hunknown, hasks, Bool.false_eq_true, if_false,
      promptUnknownHost]
    split at haccepted
    · next hterminal =>
        rw [if_pos hterminal]
        split at haccepted
        · cases haccepted
        · next answer hline =>
            split at haccepted
            · next hyes =>
                rw [if_pos hyes, record, hpath, Option.some_or]
                simp only [hlearn]
            · cases haccepted
    · cases haccepted
  rw [classifyHostKey, hpaths] at hunknown
  rw [hvisited, hpaths]
  exact known_of_learn hK hunknown hlearn

/-- **Trust on first use.**  A key that the user approves, and that can be recorded, is from then on
accepted from its host without asking, and any other key of its algorithm is refused there without
asking, whatever has been connected to in between. -/
theorem trust_on_first_use (hK : K.Lawful) (files : HostFiles ω) (first again : Visit κ)
    (visits : List (Visit κ)) (hasks : first.handler.acceptUnknownHosts = false)
    (hrecords : ∃ path ∈ first.handler.knownHostsFiles.head?,
      (K.learn first.handler.host first.handler.port first.key (files path)).isSome)
    (haccepted : (K.checkServerKey first.handler first.console first.key files).1 = true)
    (hfiles : ∀ visit ∈ again :: visits,
      visit.handler.knownHostsFiles = first.handler.knownHostsFiles)
    (hhost : again.handler.host = first.handler.host ∧ again.handler.port = first.handler.port) :
    (again.key = first.key → K.checkServerKey again.handler again.console again.key
        (run K.visited files (first :: visits)) = (true, run K.visited files (first :: visits))) ∧
      (again.key ≠ first.key → K.algorithm again.key = K.algorithm first.key →
        K.checkServerKey again.handler again.console again.key
          (run K.visited files (first :: visits)) =
            (false, run K.visited files (first :: visits))) := by
  have hfirst : K.classify first.handler.host first.handler.port (K.visited files first) first.key
      first.handler.knownHostsFiles = .known := by
    cases hstatus : K.classifyHostKey first.handler files first.key with
    | known => exact known_visited hK hstatus
    | changed =>
        simp only [checkServerKey, hstatus] at haccepted
        cases haccepted
    | unknown => exact known_of_approved hK hstatus hasks hrecords haccepted
  have hend : K.classify first.handler.host first.handler.port
      (run K.visited files (first :: visits)) first.key first.handler.knownHostsFiles = .known := by
    rw [run_cons]
    have hstep : ∀ files (visit : Visit κ),
        visit.handler.knownHostsFiles = first.handler.knownHostsFiles →
          K.classify first.handler.host first.handler.port files first.key
              first.handler.knownHostsFiles = .known →
            K.classify first.handler.host first.handler.port (K.visited files visit) first.key
              first.handler.knownHostsFiles = .known := by
      intro files visit hpaths h
      rw [← hpaths] at h ⊢
      exact known_visited hK h
    have hsame : AllSteps K.visited (fun _ visit => visit.handler.knownHostsFiles =
        first.handler.knownHostsFiles) (K.visited files first) visits :=
      allSteps_of_forall fun visit hvisit => hfiles visit (List.mem_cons_of_mem _ hvisit)
    exact invariant hstep hfirst hsame
  have hagain := hfiles again List.mem_cons_self
  constructor
  · intro hkey
    rw [checkServerKey, classifyHostKey, hhost.1, hhost.2, hagain, hkey, hend]
  · intro hkey halg
    rw [checkServerKey, classifyHostKey, hhost.1, hhost.2, hagain, classify_other hK halg hkey hend]

/-! Keys with an algorithm and a number, in files that are lists: the user approves the key 7 of the
host `h`, connects to another host, and is then presented with the key 8. -/

/-- The keys that a list records for a host. -/
def recorded (host : Str) (port : UInt16) (contents : List (Str × UInt16 × Str × ℕ)) :
    List (Str × ℕ) :=
  (contents.filter fun entry => entry.1 = host ∧ entry.2.1 = port).map fun entry => entry.2.2

/-- Files that are lists of records. -/
def listed : KnownHosts (Str × ℕ) (List (Str × UInt16 × Str × ℕ)) where
  algorithm := Prod.fst
  check host port key contents :=
    if ∃ other ∈ recorded host port contents, other.1 = key.1 ∧ other ≠ key then none
    else some (decide (key ∈ recorded host port contents))
  learn host port key old := some (old.getD [] ++ [(host, port, key)])
  homeFile := none

lemma recorded_append (host host' : Str) (port port' : UInt16) (key : Str × ℕ)
    (contents : List (Str × UInt16 × Str × ℕ)) :
    recorded host' port' (contents ++ [(host, port, key)]) =
      if host' = host ∧ port' = port then recorded host' port' contents ++ [key]
      else recorded host' port' contents := by
  rw [recorded, List.filter_append, List.map_append]
  split
  · next hsame =>
      obtain ⟨rfl, rfl⟩ := hsame
      simp [recorded]
  · next hapart =>
      have hnone : ¬ (host = host' ∧ port = port') := fun h => hapart ⟨h.1.symm, h.2.symm⟩
      simp [recorded, hnone]

/-- What a list says of a key is what the keys say that it records. -/
lemma listed_checkFile (host : Str) (port : UInt16) (key : Str × ℕ)
    (old : Option (List (Str × UInt16 × Str × ℕ))) :
    listed.checkFile host port key old = listed.check host port key (old.getD []) := by
  cases old with
  | none => simp [checkFile, listed, recorded]
  | some contents => rfl

lemma listed_lawful : listed.Lawful where
  changed host port key other contents hcheck halg hne := by
    simp only [listed, Option.ite_none_left_eq_some, Option.some.injEq, decide_eq_true_eq]
      at hcheck
    exact if_pos ⟨key, hcheck.2, halg.symm, hne.symm⟩
  learned host port key old new hlearn hfound := by
    obtain rfl : old.getD [] ++ [(host, port, key)] = new := Option.some.inj hlearn
    rw [listed_checkFile] at hfound
    simp only [listed, ne_eq, ite_eq_left_iff, reduceCtorEq, imp_false, not_not] at hfound
    simp only [listed, recorded_append, and_self, if_true]
    rw [if_neg, decide_eq_true (List.mem_append_right _ List.mem_cons_self)]
    rintro ⟨other, hmem, halg, hne⟩
    rcases List.mem_append.mp hmem with hmem | hmem
    · exact hfound ⟨other, hmem, halg, hne⟩
    · exact hne (List.mem_singleton.mp hmem)
  apart host port key host' port' other old new hlearn hapart := by
    obtain rfl : old.getD [] ++ [(host, port, key)] = new := Option.some.inj hlearn
    rw [listed_checkFile]
    simp only [listed, recorded_append]
    split
    · next hsame =>
        -- the new key is of another algorithm
        have halg : other.1 ≠ key.1 := hapart.resolve_left (not_not.mpr hsame)
        have hne : other ≠ key := fun heq => halg (congrArg Prod.fst heq)
        have hiff : (∃ k ∈ recorded host' port' (old.getD []) ++ [key], k.1 = other.1 ∧ k ≠ other) ↔
            ∃ k ∈ recorded host' port' (old.getD []), k.1 = other.1 ∧ k ≠ other := by
          simp [or_and_right, exists_or, Ne.symm halg]
        have hmem : other ∈ recorded host' port' (old.getD []) ++ [key] ↔
            other ∈ recorded host' port' (old.getD []) := by simp [hne]
        simp only [hiff, hmem]
    · rfl

/-- A connection from a terminal at which everything is approved. -/
def approving (host : Str) (key : ℕ) : Visit (Str × ℕ) where
  handler := ⟨[['k']], false, host, 22⟩
  console := ⟨true, some ['Y', 'e', 's', '\n']⟩
  key := (['e', 'd'], key)

theorem trust_on_first_use_example :
    listed.checkServerKey (approving ['h'] 8).handler (approving ['h'] 8).console (['e', 'd'], 8)
        (run listed.visited (fun _ => none) [approving ['h'] 7, approving ['i'] 8]) =
      (false, run listed.visited (fun _ => none) [approving ['h'] 7, approving ['i'] 8]) := by
  have hfiles : ∀ visit ∈ approving ['h'] 8 :: [approving ['i'] 8],
      visit.handler.knownHostsFiles = (approving ['h'] 7).handler.knownHostsFiles := by
    intro visit hvisit
    rcases List.mem_cons.mp hvisit with rfl | hvisit
    · rfl
    · rw [List.mem_singleton.mp hvisit]
      rfl
  have htrust := trust_on_first_use listed_lawful (fun _ => none) (approving ['h'] 7)
    (approving ['h'] 8) [approving ['i'] 8] rfl ⟨['k'], rfl, rfl⟩ (by decide) hfiles ⟨rfl, rfl⟩
  exact htrust.2 (by decide) rfl

end KnownHosts

end CacheShfs
