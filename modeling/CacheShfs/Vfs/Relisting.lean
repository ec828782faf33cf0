import CacheShfs.Vfs.Identity
import CacheShfs.Vfs.Immutable
import CacheShfs.Vfs.Listings

/-!
# A listing, and the same listing again

What `readdir` makes of a listing that the remote returns, and what is left of it in the store.
`record_listing` keeps all names and an entry for each name that is a path component; a later
`readdir` rebuilds the listing from them.

With distinct path components it comes back as it was: from the same session with the same
nodes, and from an offline session on the directory with the same attributes
(`cached_listing_same`).  A name that is no path component is handled in three ways:
`record_listing` skips it, the loop of `readdir` fails at it, and the cached listing is unusable
because of it.  So one such name hides the directory (`readdir_shows_representable_iff`).
-/

namespace CacheShfs

open Machine

namespace World

variable {ρ : Type} {R : RemoteFilesystem ρ}

/-! ## The cached listing -/

/-- Where every name has a path and an entry, the cached listing has the entries' attributes. -/
lemma cachedListing_eq {path : RemotePath} {s : Store} {children : List (Str × FileAttributes)}
    (hnames : s.listing path.asStr = some (children.map Prod.fst))
    (hattrs : ∀ c ∈ children, ∃ child, path.join c.1 = .ok child ∧ s.getAttrs child = some c.2) :
    cachedListing path s = some children := by
  have hchildren : ∃ cached, cachedChildren path s (children.map Prod.fst) = some cached ∧
      cached.map (fun c => (c.1, c.2.2)) = children := by
    clear hnames
    induction children with
    | nil => exact ⟨[], rfl, rfl⟩
    | cons c rest ih =>
        obtain ⟨cached, hcached, hmap⟩ := ih fun c hc => hattrs c (List.mem_cons_of_mem _ hc)
        obtain ⟨child, hjoin, hgot⟩ := hattrs c List.mem_cons_self
        refine ⟨(c.1, child, c.2) :: cached, ?_, by simp [hmap]⟩
        simp only [List.map_cons, cachedChildren, hjoin, hcached, hgot]
  obtain ⟨cached, hcached, hmap⟩ := hchildren
  rw [cachedListing, Store.getChildren_eq, hnames, Option.bind_some, hcached, Option.map_some, hmap]

/-- The names that the store shows for a directory. -/
def cachedNames (path : RemotePath) (s : Store) : Option (List Str) :=
  (cachedListing path s).map (List.map Prod.fst)

/-- A listing all of whose children have entries is shown whole exactly if all names are path
components. -/
lemma cachedNames_eq_iff {path : RemotePath} {s : Store} {names : List Str}
    (hnames : s.listing path.asStr = some names)
    (hentries : ∀ name ∈ names, ValidComponent name →
      s.entry (childKey path.asStr name) ≠ none) :
    cachedNames path s = some names ↔ ∀ name ∈ names, ValidComponent name := by
  have hlisting : cachedNames path s =
      (cachedChildren path s names).map (List.map Prod.fst) := by
    rw [cachedNames, cachedListing, Store.getChildren_eq, hnames]
    simp [Option.map_map, Function.comp_def]
  rw [hlisting, Option.map_eq_some_iff]
  constructor
  · rintro ⟨children, hchildren, -⟩
    exact cachedChildren_valid hchildren
  · intro hvalid
    obtain ⟨children, hchildren⟩ := cachedChildren_of_valid path s hvalid
    exact ⟨children, hchildren,
      cachedChildren_all (fun name h => hentries name h (hvalid name h)) hchildren⟩

/-! ## What a recorded listing leaves -/

/-- The entry of a child of a recorded listing is there. -/
lemma entry_recordListing_ne_none {path : RemotePath} {children : List (Str × FileAttributes)}
    (s : Store) {name : Str} (hname : name ∈ children.map Prod.fst) (hvalid : ValidComponent name) :
    (s.recordListing path children).entry (childKey path.asStr name) ≠ none := by
  obtain ⟨c, hc, rfl⟩ := List.mem_map.mp hname
  rcases s.entry_recordListing path children (childKey path.asStr c.1) with
    ⟨_, _, _, _, _, _, hentry⟩ | ⟨hno, -⟩
  · rw [hentry]
    exact Option.some_ne_none _
  · exact absurd rfl (hno c.1 c.2 hc hvalid)

/-- With distinct names, it has the attributes of the child. -/
lemma getAttrs_recordListing {path : RemotePath} {children : List (Str × FileAttributes)}
    (s : Store) (hdistinct : (children.map Prod.fst).Nodup) {c : Str × FileAttributes}
    (hc : c ∈ children) {child : RemotePath} (hjoin : path.join c.1 = .ok child) :
    (s.recordListing path children).getAttrs child = some c.2 := by
  obtain ⟨hvalid, hkey⟩ := RemotePath.join_ok_iff.mp hjoin
  rw [Store.getAttrs_eq, hkey]
  rcases s.entry_recordListing path children (childKey path.asStr c.1) with
    ⟨name, attrs, content, hmem, -, hsame, hentry⟩ | ⟨hno, -⟩
  · -- no other child has this key
    have hname : c.1 = name := childKey_right_inj hsame
    have heq : c = (name, attrs) := List.inj_on_of_nodup_map hdistinct hc hmem hname
    rw [hentry, heq]
    simp
  · exact absurd rfl (hno c.1 c.2 hc hvalid)

lemma cachedNames_recordListing (path : RemotePath) (children : List (Str × FileAttributes))
    (s : Store) : cachedNames path (s.recordListing path children) = some (children.map Prod.fst) ↔
      ∀ c ∈ children, ValidComponent c.1 := by
  rw [cachedNames_eq_iff (by rw [Store.listing_recordListing, if_pos rfl])
    fun name => entry_recordListing_ne_none s]
  simp only [List.mem_map, forall_exists_index, and_imp, forall_apply_eq_imp_iff₂]

/-- A recorded listing of distinct path components is the cached one. -/
lemma cachedListing_recordListing {path : RemotePath} {children : List (Str × FileAttributes)}
    (s : Store) (hvalid : ∀ c ∈ children, ValidComponent c.1)
    (hdistinct : (children.map Prod.fst).Nodup) :
    cachedListing path (s.recordListing path children) = some children := by
  refine cachedListing_eq (by rw [Store.listing_recordListing, if_pos rfl]) fun c hc => ?_
  have hjoin := path.join_eq_ok (hvalid c hc)
  exact ⟨_, hjoin, getAttrs_recordListing s hdistinct hc hjoin⟩

/-! ## The nodes -/

/-- A cached listing that has been shown before, with nodes that are still registered, is shown
in the same way, and nothing changes. -/
lemma internChildren_known {path : RemotePath}
    {children : List (Str × RemotePath × FileAttributes)} {result : List DirectoryEntry}
    {st : State} (hjoin : ∀ c ∈ children, path.join c.1 = .ok c.2.1)
    (hshown : children.map (fun c => (c.1, c.2.2)) = result.map DirectoryEntry.shown)
    (hnodes : ∀ e ∈ result, ∀ p, path.join e.name = .ok p → st.node p = some e.metadata.node) :
    internChildren children st = (result, st) := by
  induction children generalizing result with
  | nil =>
      have hnil : result = [] := List.map_eq_nil_iff.mp hshown.symm
      rw [hnil]
      rfl
  | cons c rest ih =>
      cases result with
      | nil => cases hshown
      | cons e entries =>
          obtain ⟨name, child, attributes⟩ := c
          obtain ⟨ename, enode, eattributes⟩ := e
          simp only [List.map_cons, List.cons.injEq, DirectoryEntry.shown, Prod.mk.injEq] at hshown
          obtain ⟨⟨rfl, rfl⟩, hrest⟩ := hshown
          have hnode := hnodes _ List.mem_cons_self child (hjoin _ List.mem_cons_self)
          have hentries := ih (fun c hc => hjoin c (List.mem_cons_of_mem _ hc)) hrest
            fun e he => hnodes e (List.mem_cons_of_mem _ he)
          simp only [internChildren, State.intern_of_node hnode, hentries]

lemma readdirFromCache_known {w : World ρ} {path : RemotePath} {result : List DirectoryEntry}
    (hlist : cachedListing path w.store = some (result.map DirectoryEntry.shown))
    (hnodes : ∀ e ∈ result, ∀ p, path.join e.name = .ok p →
      w.state.node p = some e.metadata.node) :
    w.readdirFromCache path = some (result, w) := by
  rw [cachedListing, Option.map_eq_some_iff] at hlist
  obtain ⟨children, hbind, hshown⟩ := hlist
  obtain ⟨names, hnames, hchildren⟩ := Option.bind_eq_some_iff.mp hbind
  unfold readdirFromCache
  simp only [hnames, hchildren]
  rw [internChildren_known (cachedChildren_join hchildren) hshown hnodes]

/-! ## One fetched listing -/

/-- `readdir` of a node of an online mount asks the remote, which returns a listing. -/
structure Fetches (R : RemoteFilesystem ρ) (w : World ρ) (node : NodeId) (path : RemotePath)
    (entries : List RemoteDirectoryEntry) : Prop where
  online : w.offline = false
  hasPath : w.state.path node = some path
  uncached : (if w.metadataFresh path then w.readdirFromCache path else none) = none
  answer : (R.readDir path w.conn.remote).1 = .ok entries

section Fetched

variable {w : World ρ} {node : NodeId} {path : RemotePath} {entries : List RemoteDirectoryEntry}

lemma Fetches.readdir_eq (h : Fetches R w node path entries) :
    w.readdir R node = w.readdirRemote R path := by
  simp only [readdir, State.pathOf_ok.mpr h.hasPath, h.uncached, h.online, Bool.false_eq_true,
    if_false]

lemma Fetches.asked (h : Fetches R w node path entries) : w.conn.readDir R path = (.ok entries,
    w.conn.record (.readDir path (.ok entries)) (R.readDir path w.conn.remote).2) :=
  Prod.ext h.answer (by rw [← h.answer]; rfl)

/-- A fetched listing is recorded; the answer is that of the loop over its children. -/
lemma readdir_fetched (h : Fetches R w node path entries) :
    (w.readdir R node).1 =
        (stampChildren path w.conn.now (realChildren entries) w.state).1 ∧
      (w.readdir R node).2.store = w.store.recordListing path (realChildren entries) ∧
      (w.readdir R node).2.config = w.config ∧ (w.readdir R node).2.conn.now = w.conn.now ∧
      ∀ result st, stampChildren path w.conn.now (realChildren entries) w.state =
        (.ok result, st) → (w.readdir R node).2.state = st.stamp path w.conn.now := by
  rw [h.readdir_eq, readdirRemote, h.asked]
  simp only [Conn.record_now]
  rcases hst : stampChildren path w.conn.now (realChildren entries) w.state with
    ⟨result | result, st⟩
  · exact ⟨rfl, rfl, rfl, rfl, by rintro _ _ ⟨⟩⟩
  · exact ⟨rfl, rfl, rfl, rfl, by rintro _ _ ⟨⟩; rfl⟩

lemma Fetches.conn (h : Fetches R w node path entries) : (w.readdir R node).2.conn =
    w.conn.record (.readDir path (.ok entries)) (R.readDir path w.conn.remote).2 := by
  rw [h.readdir_eq, readdirRemote, h.asked]
  simp only
  split <;> rfl

/-- `readdir` of the node is answered from the cache: the cached listing is fresh, or the remote
cannot be reached. -/
structure CacheServes (R : RemoteFilesystem ρ) (w : World ρ) (node : NodeId) (path : RemotePath) :
    Prop where
  hasPath : w.state.path node = some path
  cached : w.readdirFromCache path ≠ none
  instead : w.metadataFresh path = true ∨
    ∃ m, (R.readDir path w.conn.remote).1 = .error (.unavailable m)

lemma Fetches.not_cacheServes (h : Fetches R w node path entries) :
    ¬ CacheServes R w node path := by
  rintro ⟨-, hcached, hfresh | ⟨m, hfail⟩⟩
  · have huncached := h.uncached
    rw [if_pos hfresh] at huncached
    exact hcached huncached
  · rw [h.answer] at hfail
    cases hfail

lemma readdirFromCache_withConn (w : World ρ) (path : RemotePath) (conn : Conn ρ) :
    ({ w with conn := conn } : World ρ).readdirFromCache path =
      (w.readdirFromCache path).map fun x => (x.1, { x.2 with conn := conn }) := by
  unfold readdirFromCache
  cases w.store.getChildren path with
  | none => rfl
  | some names =>
      simp only
      cases cachedChildren path w.store names <;> rfl

/-- The listing from the cache, after the remote has been asked in vain or not at all. -/
lemma CacheServes.readdir (h : CacheServes R w node path) :
    ∃ result st conn, w.readdirFromCache path = some (result, { w with state := st }) ∧
      w.readdir R node = (.ok result, { w with state := st, conn := conn }) ∧
      (conn = w.conn ∨ conn = (w.conn.readDir R path).2 ∧
        ∃ m, (R.readDir path w.conn.remote).1 = .error (.unavailable m)) := by
  obtain ⟨hpath, hcached, hinstead⟩ := h
  obtain ⟨hnone, -⟩ | ⟨result, st, hsome, -⟩ := readdirFromCache_cases w path
  · exact absurd hnone hcached
  · cases hfresh : w.metadataFresh path with
    | true =>
        refine ⟨result, st, w.conn, hsome, ?_, .inl rfl⟩
        simp only [World.readdir, State.pathOf_ok.mpr hpath, hfresh, if_true, hsome]
    | false =>
        obtain hfresh' | ⟨m, hfail⟩ := hinstead
        · rw [hfresh] at hfresh'
          cases hfresh'
        · have honline : w.offline = false := (Bool.or_eq_false_iff.mp hfresh).1
          have hread : w.conn.readDir R path =
              (.error (.unavailable m), (w.conn.readDir R path).2) := Prod.ext hfail rfl
          refine ⟨result, st, (w.conn.readDir R path).2, hsome, ?_, .inr ⟨rfl, m, hfail⟩⟩
          simp only [World.readdir, State.pathOf_ok.mpr hpath, hfresh, honline,
            Bool.false_eq_true, if_false, readdirRemote]
          rw [hread]
          simp only [isUnreachable, if_true, readdirFromCache_withConn, hsome, Option.map_some]

lemma path_of_readdir {result : List DirectoryEntry} (hok : (w.readdir R node).1 = .ok result) :
    ∃ path, w.state.path node = some path := by
  cases hpath : w.state.pathOf node with
  | ok path => exact ⟨path, State.pathOf_ok.mp hpath⟩
  | error e => simp [readdir, hpath] at hok

/-- **Where a listing comes from**: it was fetched, or it is the cached one. -/
lemma readdir_ok_cases (hpath : w.state.path node = some path) {result : List DirectoryEntry}
    (hok : (w.readdir R node).1 = .ok result) :
    (∃ entries, Fetches R w node path entries ∧
        result.map DirectoryEntry.shown = realChildren entries) ∨ CacheServes R w node path := by
  cases hcache : (if w.metadataFresh path then w.readdirFromCache path else none) with
  | some x =>
      obtain ⟨hfresh, hcached⟩ := (Option.ite_none_right_eq_some).mp hcache
      exact .inr ⟨hpath, by rw [hcached]; simp, .inl hfresh⟩
  | none =>
      have honline : w.offline = false := by
        cases hoff : w.offline with
        | false => rfl
        | true => simp [readdir, State.pathOf_ok.mpr hpath, hcache, hoff] at hok
      cases hanswer : (R.readDir path w.conn.remote).1 with
      | ok entries =>
          have hf : Fetches R w node path entries := ⟨honline, hpath, hcache, hanswer⟩
          refine .inl ⟨entries, hf, ?_⟩
          rw [(readdir_fetched hf).1] at hok
          exact (stampChildren_ok (Prod.ext hok rfl)).1
      | error e =>
          have hread : w.conn.readDir R path = (.error e, (w.conn.readDir R path).2) :=
            Prod.ext hanswer rfl
          simp only [readdir, State.pathOf_ok.mpr hpath, hcache, honline, Bool.false_eq_true,
            if_false, readdirRemote] at hok
          rw [hread] at hok
          simp only [readdirFromCache_withConn] at hok
          -- only an unreachable remote leaves the answer to the cache
          cases e with
          | unavailable m =>
              refine .inr ⟨hpath, fun hnone => ?_, .inr ⟨m, hanswer⟩⟩
              simp [isUnreachable, hnone] at hok
          | _ => simp [isUnreachable] at hok

/-- The entries that have a path, in the order of the listing. -/
def representable (entries : List RemoteDirectoryEntry) : List (Str × FileAttributes) :=
  (entries.filter fun e => ValidComponent e.name).map fun e => (e.name, e.attributes)

/-- All names but the dots are path components. -/
def Representable (entries : List RemoteDirectoryEntry) : Prop :=
  ∀ e ∈ entries, e.name ≠ ['.'] → e.name ≠ ['.', '.'] → ValidComponent e.name

lemma representable_iff :
    Representable entries ↔ ∀ c ∈ realChildren entries, ValidComponent c.1 := by
  simp only [Representable, realChildren, List.mem_map, List.mem_filter, forall_exists_index,
    and_imp, decide_eq_true_eq]
  constructor
  · rintro h c e hmem hdot hdots rfl
    exact h e hmem hdot hdots
  · exact fun h e hmem hdot hdots => h _ e hmem hdot hdots rfl

lemma realChildren_eq (h : Representable entries) :
    realChildren entries = representable entries := by
  rw [realChildren, representable]
  congr 1
  refine List.filter_congr fun e he => decide_eq_decide.mpr ?_
  exact ⟨fun hdots => h e he hdots.1 hdots.2, fun hvalid => ⟨hvalid.2.1, hvalid.2.2.1⟩⟩

/-- `readdir` returns the entries that have a path, and the listing it records can be served. -/
def ShowsRepresentable (R : RemoteFilesystem ρ) (w : World ρ) (node : NodeId) (path : RemotePath)
    (entries : List RemoteDirectoryEntry) : Prop :=
  (∃ result, (w.readdir R node).1 = .ok result ∧
      result.map DirectoryEntry.shown = representable entries) ∧
    cachedNames path (w.readdir R node).2.store = some ((representable entries).map Prod.fst)

/-- **A name without a path hides a directory.**  A listing that `readdir` fetches is returned with
exactly the entries that have a path, and recorded so that it can be served, exactly if all its
names but the dots are path components. -/
theorem readdir_shows_representable_iff (h : Fetches R w node path entries) :
    ShowsRepresentable R w node path entries ↔ Representable entries := by
  obtain ⟨hanswer, hstore, -⟩ := readdir_fetched h
  constructor
  · rintro ⟨⟨result, hok, -⟩, -⟩
    rw [hanswer] at hok
    exact representable_iff.mpr (stampChildren_ok (Prod.ext hok rfl)).2
  · intro hvalid
    have hchildren := representable_iff.mp hvalid
    obtain ⟨result, st, hst⟩ :=
      stampChildren_valid path w.conn.now hchildren w.state
    refine ⟨⟨result, by rw [hanswer, hst], ?_⟩, ?_⟩
    · rw [← realChildren_eq hvalid]
      exact (stampChildren_ok hst).1
    · rw [hstore, ← realChildren_eq hvalid]
      exact (cachedNames_recordListing path _ w.store).mpr hchildren

/-! ## The same listing again -/

lemma cachedListing_index {s s' : Store} (h : s'.index = s.index) (path : RemotePath) :
    cachedListing path s' = cachedListing path s := by
  have hattrs : ∀ p, s'.getAttrs p = s.getAttrs p := fun p => by
    rw [Store.getAttrs, h, Store.getAttrs]
  have hchildren : cachedChildren path s' = cachedChildren path s :=
    funext (cachedChildren_congr fun _ child _ => hattrs child)
  rw [cachedListing, Store.getChildren, h, hchildren]
  rfl

/-- A listing that the session can show is served in place of a remote that fails, and while it
is fresh. -/
lemma readdir_known {v : World ρ} (hpath : v.state.path node = some path)
    (honline : v.offline = false) {result : List DirectoryEntry}
    (hlist : cachedListing path v.store = some (result.map DirectoryEntry.shown))
    (hnodes : ∀ e ∈ result, ∀ p, path.join e.name = .ok p →
      v.state.node p = some e.metadata.node)
    (hserved : v.metadataFresh path = true ∨
      ∃ m, (R.readDir path v.conn.remote).1 = .error (.unavailable m)) :
    (v.readdir R node).1 = .ok result := by
  have hknown := readdirFromCache_known hlist hnodes
  simp only [readdir, State.pathOf_ok.mpr hpath]
  by_cases hfresh : v.metadataFresh path = true
  · simp only [hfresh, if_true, hknown]
  · obtain ⟨m, hfail⟩ := hserved.resolve_left hfresh
    have hread : v.conn.readDir R path = (.error (.unavailable m), (v.conn.readDir R path).2) :=
      Prod.ext hfail rfl
    have hknown' := readdirFromCache_known
      (w := { v with conn := (v.conn.readDir R path).2 }) hlist hnodes
    simp only [if_neg hfresh, honline, Bool.false_eq_true, if_false, readdirRemote]
    rw [hread]
    simp only [isUnreachable, if_true]
    rw [hknown']

/-- The listings that `readdir` of the node returns after `w`, and offline. -/
structure ListsAgain (R : RemoteFilesystem ρ) (w : World ρ) (node : NodeId) (path : RemotePath)
    (result : List DirectoryEntry) : Prop where
  /-- Within the TTL, or when the remote cannot be reached. -/
  session : ∀ d remote, (d < w.config.metadataTtl ∨
      ∃ m, (R.readDir path remote).1 = .error (.unavailable m)) →
    ((run (step R) w [.tick d, .external remote]).readdir R node).1 = .ok result
  /-- At any time of an offline session on the same directory. -/
  offline : ∀ {σ : Type} root readOnly metadataTtl cacheChunkSize (conn : Conn σ) es v,
    (∀ e ∈ es, InSession e) →
    Visits (step (disconnectedRemote σ))
      (newOffline root readOnly metadataTtl cacheChunkSize w.store.disk conn) es v →
    ∀ n, v.state.path n = some path →
      (v.readdir (disconnectedRemote σ) n).1.map (List.map DirectoryEntry.shown) =
        .ok (result.map DirectoryEntry.shown)

/-- **A cached listing is the fetched one.**  In every state of every run, a listing of distinct
path components (and dots) that `readdir` fetches is returned as the remote has it, and returned
again: within the TTL or from an unreachable remote with the same nodes, and by every offline
session on the directory with the same names, order and attributes. -/
theorem cached_listing_same (config : Config) (disk : Disk) (conn : Conn ρ) {es : List (Event ρ)}
    (hw : Visits (step R) (World.new config disk conn) es w) (h : Fetches R w node path entries)
    (hvalid : Representable entries) (hdistinct : ((representable entries).map Prod.fst).Nodup) :
    ∃ result, (w.readdir R node).1 = .ok result ∧
      result.map DirectoryEntry.shown = representable entries ∧
      ListsAgain R (w.readdir R node).2 node path result := by
  have hwf : w.state.Wf := visits_of_step wf_step (State.wf_new config.root) hw
  obtain ⟨hanswer, hstore, hconfig, hnow, hstate⟩ := readdir_fetched h
  obtain ⟨result, st, hst⟩ :=
    stampChildren_valid path w.conn.now (representable_iff.mp hvalid) w.state
  have hshown : result.map DirectoryEntry.shown = representable entries :=
    (stampChildren_ok hst).1.trans (realChildren_eq hvalid)
  have hlist : cachedListing path (w.readdir R node).2.store =
      some (result.map DirectoryEntry.shown) := by
    rw [hstore, hshown, ← realChildren_eq hvalid]
    exact cachedListing_recordListing w.store (representable_iff.mp hvalid)
      (by rwa [realChildren_eq hvalid])
  have hst' := hstate result st hst
  refine ⟨result, by rw [hanswer, hst], hshown, fun d remote hserved => ?_, ?_⟩
  · have hpath : (w.readdir R node).2.state.path node = some path := by
      rw [hst']
      exact (stampedBy_of_eq hst).path hwf h.hasPath
    have hlater : run (step R) (w.readdir R node).2 [.tick d, .external remote] =
        { (w.readdir R node).2 with
          conn :=
            ⟨remote, (w.readdir R node).2.conn.now + d, (w.readdir R node).2.conn.log⟩ } := rfl
    rw [hlater]
    apply readdir_known
    · exact hpath
    · simp only [World.offline, hconfig]
      exact h.online
    · exact hlist
    · intro e he p hjoin
      simp only [hst']
      exact node_stampChildren hst e he p hjoin
    · refine hserved.imp_left fun hd => ?_
      simp only [metadataFresh, hst', State.validatedAt_stamp, if_true, Option.any_some, hnow,
        Nat.add_sub_cancel_left, decide_eq_true hd, Bool.or_true]
  · intro σ root readOnly metadataTtl cacheChunkSize conn' fs v hfs hv n hn
    have hoff := ((offline_mount_immutable root readOnly metadataTtl cacheChunkSize _ conn' hfs
      hv).2.1 n path hn).2.2
    rw [hoff, Store.offlineReaddir, cachedListing_index (s := (w.readdir R node).2.store), hlist]
    rw [hstore]
    simp [Store.recordListing, Store.new]

end Fetched

/-- A remote that lists the same entries in every directory. -/
def lists (entries : List RemoteDirectoryEntry) : RemoteFilesystem Memory :=
  { Memory.filesystem with readDir := fun _ m => (.ok entries, m) }

/-- A directory with the files `a` and `b\c`. -/
def backslashed : List RemoteDirectoryEntry :=
  [⟨['a'], Memory.attributes (.file [1, 2, 3] none)⟩,
    ⟨['b', '\\', 'c'], Memory.attributes (.file [] none)⟩]

lemma fetches_mount (entries : List RemoteDirectoryEntry) :
    Fetches (lists entries) (mount sampleTree 10) .root .root entries :=
  ⟨rfl, rfl, rfl, rfl⟩

/-- `readdir` fails because of `b\c`, and the recorded listing cannot be served. -/
theorem backslash_hides_directory :
    Fetches (lists backslashed) (mount sampleTree 10) .root .root backslashed ∧
      ¬ ShowsRepresentable (lists backslashed) (mount sampleTree 10) .root .root backslashed := by
  refine ⟨fetches_mount backslashed, ?_⟩
  rintro ⟨⟨result, hok, -⟩, -⟩
  have herror : ((mount sampleTree 10).readdir (lists backslashed) .root).1 =
      .error (.invalidInput "'b\\c' is not a valid path component") := by decide
  rw [herror] at hok
  cases hok

/-- The listing without the second file. -/
def plain : List RemoteDirectoryEntry := backslashed.take 1

lemma representable_plain : Representable plain := by
  intro e he _ _
  obtain rfl := List.mem_singleton.mp he
  decide

theorem readdir_shows_representable_plain :
    ShowsRepresentable (lists plain) (mount sampleTree 10) .root .root plain :=
  (readdir_shows_representable_iff (fetches_mount plain)).mpr representable_plain

/-- A directory that lists itself, the file `b`, and `a` with another size than it had. -/
def changed : List RemoteDirectoryEntry :=
  [⟨['.'], Memory.attributes .dir⟩, ⟨['b'], Memory.attributes (.file [] none)⟩,
    ⟨['a'], Memory.attributes (.file [1, 2, 3, 4] none)⟩]

/-- The file `a` has been looked up, opened and read. -/
def readBefore : List (Event Memory) :=
  [.call (.lookup .root ['a']), .call (.openFile ⟨2⟩ {}), .call (.read ⟨1⟩ 0 8)]

def mountRead : World Memory := run (step (lists changed)) (mount sampleTree 10) readBefore

lemma fetches_mountRead : Fetches (lists changed) mountRead .root .root changed :=
  ⟨rfl, rfl, by decide, rfl⟩

lemma representable_changed : Representable changed :=
  representable_iff.mpr (by decide)

theorem cached_listing_same_plain :
    (mountRead.store.content ['/', 'a']).isSome ∧
    ∃ result, (mountRead.readdir (lists changed) .root).1 = .ok result ∧
      result.map DirectoryEntry.shown = representable changed ∧
      ListsAgain (lists changed) (mountRead.readdir (lists changed) .root).2 .root .root result :=
  ⟨by decide, cached_listing_same _ Disk.empty ⟨sampleTree, 0, []⟩
    ⟨readBefore, List.prefix_refl _, rfl⟩ fetches_mountRead representable_changed (by decide)⟩

end World

end CacheShfs
