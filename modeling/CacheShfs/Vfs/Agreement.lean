import CacheShfs.Vfs.Relisting

/-!
# A listing and the lookups after it

After `readdir` has stored and stamped the children of a directory, a `lookup` of a listed name
is meant to be answered from what was listed.  `lookup` asks three layers in turn: the not-found
answers of the last second, the attributes confirmed within the TTL, and the remote.  `readdir`
renews the second only: a name that was not found a moment ago is listed and still not found
(`listed_name_not_found`).  `lookups_agree_iff` says exactly when the lookups of all listed names
return what was listed.
-/

namespace CacheShfs

open Machine

namespace World

variable {ρ : Type} {R : RemoteFilesystem ρ}

/-! ## What a listing leaves for the lookups -/

/-- The world `w'` after a listing of the directory at `path` was returned in `w`; `fetched` if
it came from the remote. -/
structure Primed (w : World ρ) (path : RemotePath) (entries : List DirectoryEntry)
    (fetched : Prop) (w' : World ρ) : Prop where
  valid : ∀ e ∈ entries, ValidComponent e.name
  node : ∀ e ∈ entries, ∀ p, path.join e.name = .ok p → w'.state.node p = some e.metadata.node
  /-- The stored attributes are those of an entry with this name. -/
  attrs : ∀ e ∈ entries, ∀ p, path.join e.name = .ok p →
    ∃ e' ∈ entries, e'.name = e.name ∧ w'.store.getAttrs p = some e'.metadata.attributes
  negative : ∀ parent name, w'.freshNegative parent name = w.freshNegative parent name
  fresh : ∀ e ∈ entries, ∀ p, path.join e.name = .ok p →
    (w'.metadataFresh p = true ↔
      (fetched ∧ 0 < w.config.metadataTtl) ∨ w.metadataFresh p = true)

/-- A listing from the cache shows what is stored. -/
lemma primed_readdirFromCache {w w' : World ρ} {path : RemotePath}
    {entries : List DirectoryEntry} (h : w.readdirFromCache path = some (entries, w')) :
    Primed w path entries False w' := by
  have hnode := node_readdirFromCache h
  obtain ⟨names, children, -, hchildren, rfl, rfl⟩ := readdirFromCache_ok h
  have hst : Interns (fun _ => True) w.state (internChildren children w.state).2 :=
    interns_internChildren children (fun _ _ => trivial) w.state
  -- every entry shows one of the cached children
  have hchild : ∀ e ∈ (internChildren children w.state).1, ∃ c ∈ children,
      e.name = c.1 ∧ e.metadata.attributes = c.2.2 := fun e he => by
    have hmem := List.mem_map_of_mem (f := DirectoryEntry.shown) he
    rw [internChildren_shown] at hmem
    obtain ⟨c, hc, heq⟩ := List.mem_map.mp hmem
    exact ⟨c, hc, (congrArg Prod.fst heq).symm, (congrArg Prod.snd heq).symm⟩
  refine ⟨fun e he => ?_, hnode, fun e he p hp => ?_, fun parent name => ?_,
    fun e he p hp => ?_⟩
  · obtain ⟨c, hc, hname, -⟩ := hchild e he
    rw [hname]
    exact (RemotePath.join_ok_iff.mp (cachedChildren_join hchildren c hc)).1
  · obtain ⟨c, hc, hname, hattrs⟩ := hchild e he
    have hjoin := cachedChildren_join hchildren c hc
    rw [← hname, hp] at hjoin
    cases hjoin
    exact ⟨e, he, rfl, by rw [hattrs]; exact ((mem_cachedChildren hchildren).mp hc).2.2⟩
  · simp only [freshNegative, hst.negativeAt]
    rfl
  · simp only [metadataFresh, hst.validatedAt, false_and, false_or]
    rfl

/-- Every child of a returned listing is stamped. -/
lemma validatedAt_stampChildren {path : RemotePath} {now : ℕ}
    {children : List (Str × FileAttributes)} {st st' : State} {result : List DirectoryEntry}
    (h : stampChildren path now children st = (.ok result, st')) :
    ∀ e ∈ result, ∀ p, path.join e.name = .ok p → st'.validatedAt p = some now := by
  intro e he p hp
  obtain ⟨child, before, rest, hjoin, -, hstamped⟩ := stampChildren_entry h e he
  obtain rfl : child = p := Except.ok.inj (hjoin.symm.trans hp)
  -- the stamp of the child stays, or is set again
  rcases hstamped.validatedAt child with ⟨hnow, -⟩ | hkeep
  · exact hnow
  · rw [hkeep, State.validatedAt_intern, State.validatedAt_stamp, if_pos rfl]

/-- A listing from the remote is stored and stamped. -/
lemma primed_fetched {w : World ρ} {node : NodeId} {path : RemotePath}
    {remoteEntries : List RemoteDirectoryEntry} (h : Fetches R w node path remoteEntries)
    {result : List DirectoryEntry} (hok : (w.readdir R node).1 = .ok result) :
    Primed w path result True (w.readdir R node).2 := by
  obtain ⟨hanswer, hstore, hconfig, hnow, hstate⟩ := readdir_fetched h
  rcases hst : stampChildren path w.conn.now (realChildren remoteEntries) w.state with ⟨x, st⟩
  obtain rfl : x = .ok result := by rw [← hok, hanswer, hst]
  obtain ⟨hshown, hvalid⟩ := stampChildren_ok hst
  have hst' := hstate result st hst
  have honline : (w.readdir R node).2.offline = w.offline := by rw [offline, hconfig, offline]
  have hlisted : ∀ e ∈ result, (e.name, e.metadata.attributes) ∈ realChildren remoteEntries :=
    fun e he => hshown ▸ List.mem_map_of_mem he
  refine ⟨fun e he => hvalid _ (hlisted e he), fun e he p hp => ?_, fun e he p hp => ?_,
    fun parent name => ?_, fun e he p hp => ?_⟩
  · rw [hst']
    exact node_stampChildren hst e he p hp
  · obtain ⟨hname, hkey⟩ := RemotePath.join_ok_iff.mp hp
    rw [hstore, Store.getAttrs_eq, hkey]
    rcases w.store.entry_recordListing path (realChildren remoteEntries)
      (childKey path.asStr e.name) with ⟨name, attrs, content, hmem, -, hsame, hentry⟩ | ⟨hno, -⟩
    · rw [← hshown] at hmem
      obtain ⟨e', he', heq⟩ := List.mem_map.mp hmem
      cases heq
      exact ⟨e', he', (childKey_right_inj hsame).symm, by rw [hentry]; simp⟩
    · exact absurd rfl (hno _ _ (hlisted e he) hname)
  · have hneg : (w.readdir R node).2.state.negativeAt (parent, name) =
        w.state.negativeAt (parent, name) := by
      rw [hst', State.negativeAt_stamp, (stampedBy_of_eq hst).negativeAt]
    rw [freshNegative, freshNegative, hneg, honline, hconfig, hnow]
  · have hval : (w.readdir R node).2.state.validatedAt p = some w.conn.now := by
      rw [hst', State.validatedAt_stamp, validatedAt_stampChildren hst e he p hp, ite_self]
    rw [metadataFresh_iff (honline.trans h.online), hval, hnow, hconfig,
      metadataFresh_iff h.online]
    simp only [Option.some.injEq, exists_eq_left', Nat.sub_self, true_and]
    constructor
    · exact .inl
    · rintro (hpos | ⟨t, -, ht⟩)
      · exact hpos
      · omega

/-- `readdir` of the node is answered with a listing by the remote. -/
def FromRemote (R : RemoteFilesystem ρ) (w : World ρ) (node : NodeId) : Prop :=
  ∃ path remoteEntries, Fetches R w node path remoteEntries

/-- Every listing that an online mount returns leaves its children as they were listed. -/
lemma primed_readdir {w : World ρ} {node : NodeId} {path : RemotePath}
    (hpath : w.state.path node = some path) {entries : List DirectoryEntry}
    (hok : (w.readdir R node).1 = .ok entries) :
    Primed w path entries (FromRemote R w node) (w.readdir R node).2 := by
  rcases readdir_ok_cases hpath hok with ⟨remoteEntries, hf, -⟩ | hserves
  · have htrue : FromRemote R w node = True := propext ⟨fun _ => trivial, fun _ => ⟨_, _, hf⟩⟩
    rw [htrue]
    exact primed_fetched hf hok
  · have hfalse : FromRemote R w node = False := by
      refine propext ⟨?_, False.elim⟩
      rintro ⟨p, _, hf⟩
      obtain rfl := Option.some.inj (hf.hasPath.symm.trans hpath)
      exact hf.not_cacheServes hserves
    obtain ⟨result, st, conn, hcached, hread, hconn⟩ := hserves.readdir
    have hnow : conn.now = w.conn.now := by
      rcases hconn with rfl | ⟨rfl, -⟩ <;> rfl
    rw [hread] at hok ⊢
    obtain rfl := Except.ok.inj hok
    rw [hfalse]
    obtain ⟨hvalid, hnode, hattrs, hneg, hfresh⟩ := primed_readdirFromCache hcached
    refine ⟨hvalid, hnode, hattrs, fun parent name => ?_, fun e he p hp => ?_⟩
    · rw [← hneg parent name, freshNegative, freshNegative, hnow]
      rfl
    · rw [← hfresh e he p hp, metadataFresh, metadataFresh, hnow]
      rfl

/-! ## The lookup of a known child -/

/-- What `lookup` makes of a child that is registered and stored. -/
lemma lookup_known_iff {w : World ρ} (honline : w.offline = false) {parent : NodeId} {name : Str}
    {child : RemotePath} (hchild : w.childPath parent name = .ok child) {n : NodeId}
    (hnode : w.state.node child = some n) {stored : FileAttributes}
    (hstored : w.store.getAttrs child = some stored) {attributes : FileAttributes} :
    (w.lookup R parent name).1 = .ok ⟨n, attributes⟩ ↔
      w.freshNegative parent name = false ∧
        ((w.metadataFresh child = true ∧ stored = attributes) ∨
          (w.metadataFresh child = false ∧
            ((R.stat child w.conn.remote).1 = .ok attributes ∨
              (∃ m, (R.stat child w.conn.remote).1 = .error (.unavailable m)) ∧
                stored = attributes))) := by
  have hintern : ∀ t, ((w.state.stamp child t).unnegate parent name).intern child =
      (n, (w.state.stamp child t).unnegate parent name) := fun t =>
    @State.intern_of_node ((w.state.stamp child t).unnegate parent name) _ _ hnode
  unfold lookup
  simp only [hchild]
  cases hneg : w.freshNegative parent name with
  | true => simp
  | false =>
      cases hfresh : w.metadataFresh child with
      | true =>
          simp [freshAttrs, hfresh, hstored, answerAs, State.intern_of_node hnode]
      | false =>
          simp only [freshAttrs, hfresh, Bool.false_eq_true, if_false, honline, true_and,
            false_and, false_or, lookupRemote]
          have hread : w.conn.stat R child = ((R.stat child w.conn.remote).1,
            (w.conn.stat R child).2) := rfl
          rw [hread]
          cases hstat : (R.stat child w.conn.remote).1 with
          | ok a => simp [answerAs, hintern]
          | error e =>
              cases e <;>
                simp [hstored, isUnreachable, answerAs, State.intern_of_node hnode]

/-! ## Agreement -/

/-- No name is listed twice with different attributes. -/
def ListedOnce (entries : List DirectoryEntry) : Prop :=
  ∀ e ∈ entries, ∀ e' ∈ entries, e'.name = e.name → e'.metadata.attributes = e.metadata.attributes

/-- The attributes of a child are not asked for again, or asking gives the same. -/
def Confirms (R : RemoteFilesystem ρ) (w : World ρ) (node : NodeId) (child : RemotePath)
    (attributes : FileAttributes) : Prop :=
  (FromRemote R w node ∧ 0 < w.config.metadataTtl) ∨ w.metadataFresh child = true ∨
    (R.stat child (w.readdir R node).2.conn.remote).1 = .ok attributes ∨
    ∃ m, (R.stat child (w.readdir R node).2.conn.remote).1 = .error (.unavailable m)

/-- The lookup of one listed name. -/
lemma Primed.lookup_iff {w w' : World ρ} {path : RemotePath} {entries : List DirectoryEntry}
    {fetched : Prop} (h : Primed w path entries fetched w') (honline : w'.offline = false)
    {node : NodeId} (hpath : w'.state.path node = some path) {e : DirectoryEntry}
    (he : e ∈ entries) :
    ∃ child, path.join e.name = .ok child ∧ ∃ e' ∈ entries, e'.name = e.name ∧
      ((w'.lookup R node e.name).1 = .ok e.metadata ↔
        w.freshNegative node e.name = false ∧
          ((w'.metadataFresh child = true ∧
              e'.metadata.attributes = e.metadata.attributes) ∨
            (w'.metadataFresh child = false ∧
              ((R.stat child w'.conn.remote).1 = .ok e.metadata.attributes ∨
                (∃ m, (R.stat child w'.conn.remote).1 = .error (.unavailable m)) ∧
                  e'.metadata.attributes = e.metadata.attributes)))) := by
  have hjoin := path.join_eq_ok (h.valid e he)
  obtain ⟨e', he', hname, hstored⟩ := h.attrs e he _ hjoin
  refine ⟨_, hjoin, e', he', hname, ?_⟩
  rw [← h.negative]
  exact lookup_known_iff honline (childPath_ok.mpr ⟨path, hpath, hjoin⟩) (h.node e he _ hjoin)
    hstored

/-- **`lookup` agrees with `readdir` where no name was not found just before.**  In every state of
every run with an online mount, the lookups of all names that `readdir` returns give the nodes and
attributes it returned, exactly if no name is listed with two different attributes, none has a
fresh not-found answer, and each child is fresh (or fetched with a positive TTL), or the remote
confirms it or cannot be reached. -/
theorem lookups_agree_iff (config : Config) (disk : Disk) (conn : Conn ρ) {es : List (Event ρ)}
    {w : World ρ} (hw : Visits (step R) (World.new config disk conn) es w)
    (honline : w.offline = false) {node : NodeId} {entries : List DirectoryEntry}
    (hok : (w.readdir R node).1 = .ok entries) :
    (∀ e ∈ entries, ((w.readdir R node).2.lookup R node e.name).1 = .ok e.metadata) ↔
      ListedOnce entries ∧ ∀ e ∈ entries, w.freshNegative node e.name = false ∧
        ∀ child, w.childPath node e.name = .ok child →
          Confirms R w node child e.metadata.attributes := by
  have hwf : w.state.Wf := visits_of_step wf_step (State.wf_new config.root) hw
  obtain ⟨path, hpath⟩ := path_of_readdir hok
  have hprimed := primed_readdir hpath hok
  have hout := outcome_exec R w (.readdir node)
  have honline' : (w.readdir R node).2.offline = false := by
    have hconfig : (w.readdir R node).2.config = w.config := (grows_outcome hout).2
    rw [offline, hconfig]
    exact honline
  have hpath' : (w.readdir R node).2.state.path node = some path := by
    rcases registry_outcome hout hwf with hreg | ⟨src, dst, hren, -⟩
    · exact (hreg.path_old node (hwf.path_lt _ _ hpath)).trans hpath
    · exact absurd hren id
  constructor
  · intro hall
    have honce : ListedOnce entries := by
      intro e he e' he' hname
      have hsame := hall e' he'
      rw [hname, hall e he] at hsame
      exact congrArg FileMetadata.attributes (Except.ok.inj hsame).symm
    refine ⟨honce, fun e he => ?_⟩
    obtain ⟨child, hjoin, e', he', -, hiff⟩ := hprimed.lookup_iff honline' hpath' he
    obtain ⟨hneg, hcases⟩ := hiff.mp (hall e he)
    refine ⟨hneg, fun child' hchild' => ?_⟩
    obtain rfl : child = child' := by
      obtain ⟨p, hp, hjoin'⟩ := childPath_ok.mp hchild'
      obtain rfl := Option.some.inj (hp.symm.trans hpath)
      exact Except.ok.inj (hjoin.symm.trans hjoin')
    rcases hcases with ⟨hfresh, -⟩ | ⟨-, hstat | ⟨hfail, -⟩⟩
    · rcases (hprimed.fresh e he child hjoin).mp hfresh with hfetched | hold
      · exact .inl hfetched
      · exact .inr (.inl hold)
    · exact .inr (.inr (.inl hstat))
    · exact .inr (.inr (.inr hfail))
  · rintro ⟨honce, hall⟩ e he
    obtain ⟨child, hjoin, e', he', hname, hiff⟩ := hprimed.lookup_iff honline' hpath' he
    obtain ⟨hneg, hconfirms⟩ := hall e he
    have hsame := honce e he e' he' hname
    refine hiff.mpr ⟨hneg, ?_⟩
    rcases hfresh : (w.readdir R node).2.metadataFresh child with _ | _
    · refine .inr ⟨rfl, ?_⟩
      have hstale := mt (hprimed.fresh e he child hjoin).mpr (by simp [hfresh])
      rcases hconfirms child (childPath_ok.mpr ⟨path, hpath, hjoin⟩) with
        hfetched | hold | hstat | hfail
      · exact absurd (.inl hfetched) hstale
      · exact absurd (.inr hold) hstale
      · exact .inl hstat
      · exact .inr ⟨hfail, hsame⟩
    · exact .inl ⟨rfl, hsame⟩

/-- A name that is not found, made by somebody else, and listed. -/
def notFoundThenMade : List (Event Memory) :=
  [.call (.lookup .root ['b']),
    .external (sampleTree.put ['/', 'b'] (.file [] none) RemoteNode.empty_fits)]

/-- `readdir` lists `b`, and the lookup that follows says that there is none. -/
theorem listed_name_not_found :
    let w := run (step Memory.filesystem) (mount sampleTree 10) notFoundThenMade
    ∃ entries, (w.readdir Memory.filesystem .root).1 = .ok entries ∧
      ¬ ∀ e ∈ entries, ((w.readdir Memory.filesystem .root).2.lookup Memory.filesystem .root
        e.name).1 = .ok e.metadata := by
  refine ⟨[⟨['b'], ⟨2⟩, Memory.attributes (.file [] none)⟩,
    ⟨['a'], ⟨3⟩, Memory.attributes (.file [1, 2, 3] none)⟩], by decide, fun h => ?_⟩
  have hfound := h _ List.mem_cons_self
  revert hfound
  decide

/-- The first listing of the mount, and the lookup of its file. -/
theorem lookups_agree_iff_first :
    (((mount sampleTree 10).readdir Memory.filesystem .root).2.lookup Memory.filesystem .root
      ['a']).1 = .ok ⟨⟨2⟩, Memory.attributes (.file [1, 2, 3] none)⟩ := by
  have hok : ((mount sampleTree 10).readdir Memory.filesystem .root).1 =
      .ok [⟨['a'], ⟨⟨2⟩, Memory.attributes (.file [1, 2, 3] none)⟩⟩] := by decide
  refine (lookups_agree_iff _ Disk.empty ⟨sampleTree, 0, []⟩ (visits_nil.mpr rfl) rfl hok).mpr
    ⟨?_, fun e he => ?_⟩ _ (List.mem_singleton_self _)
  · intro e he e' he' _
    rw [List.mem_singleton.mp he, List.mem_singleton.mp he']
  · obtain rfl := List.mem_singleton.mp he
    refine ⟨rfl, fun child _ => .inl ⟨⟨.root, _, rfl, rfl, rfl, rfl⟩, by decide⟩⟩

end World

end CacheShfs
