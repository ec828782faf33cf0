import CacheShfs.Vfs.AttrAge

/-!
# Exclusive access

A mount whose remote is changed by nobody else.  Then the cache should be invisible: whatever
the TTL, `lookup` and `getattr` answer as the remote would, and a read returns the remote's
bytes.  `Coherent` is the invariant behind this.  It ties each of the structures that hold
freshness to the tree:

* an entry of the index describes a node of the same kind at its path (`entries`), and of the
  same size while the path counts as confirmed (`sizes`);
* the chunks of a path are pieces of the file that is there now (`content`);
* a name that counts as not found does not exist (`negatives`).

`rename` breaks each of these in some state: it leaves the time of its target in place, keeps
the target's entry when the source has none, and clears one negative entry although it creates a
whole subtree.  `create` and `mkdir` clear the negative entry of one of possibly several nodes of
a directory.  A read through a handle away from its node mixes the attributes of one path with
the bytes of another.  `Careful` says of a call that it does none of this.

Two more conditions are about what the remote makes of a call.  `Orderly` leaves out symbolic
links, which give one file two paths: the call changes its own path only, and a listing describes
what `stat` finds.  A mutation that fails returns before it touches the cache, although it may have
changed something, a part of a write for example; `FailsUnseen` says that the cache holds nothing
about that.  In every run whose steps meet these conditions the cache is transparent
(`metadata_transparent`).
-/

namespace CacheShfs

open Machine Slice

/-- The bytes of chunk `k` under a label are a piece of the file that is now at the key. -/
def PieceOf (t : Tree) (key : Str) (l : Label) (k : ℕ) (b : Bytes) : Prop :=
  ∃ f m, t key = some (.file f m) ∧ l.size.toNat = f.length ∧
    b = slice f (k * l.chunkSize) (k * l.chunkSize + l.chunkSize)

namespace World

variable {ρ : Type} {R : RemoteFilesystem ρ} {view : ρ → Tree}

/-- Every entry is of the kind of the node at its path. -/
def EntriesMatch (t : Tree) (s : Store) : Prop :=
  ∀ key e, s.entry key = some e →
    ∃ node, t key = some node ∧ e.attrs.toAttributes.kind = node.kind

/-- The stored size of a confirmed file is its size. -/
def SizesMatch (t : Tree) (w : World ρ) : Prop :=
  ∀ p time e f m, w.state.validatedAt p = some time →
    w.conn.now - time < w.config.metadataTtl → w.store.entry p.asStr = some e →
    t p.asStr = some (.file f m) → e.attrs.size.toNat = f.length

/-- A name that counts as not found does not exist. -/
def NegativesMatch (t : Tree) (w : World ρ) : Prop :=
  ∀ n x time p child, w.state.negativeAt (n, x) = some time →
    w.conn.now - time < w.config.negativeTtl → w.state.path n = some p →
    p.join x = .ok child → t child.asStr = none

/-- **The coherence invariant** of a mount with exclusive access. -/
structure Coherent (view : ρ → Tree) (w : World ρ) : Prop where
  wf : w.state.Wf
  mode : w.config.cacheMode = .onDemand
  entries : EntriesMatch (view w.conn.remote) w.store
  sizes : SizesMatch (view w.conn.remote) w
  content : w.store.Sound (PieceOf (view w.conn.remote))
  negatives : NegativesMatch (view w.conn.remote) w

lemma Coherent.online {w : World ρ} (h : Coherent view w) : w.offline = false := by
  simp [offline, h.mode]

/-! ## Changes at one path -/

/-- Two worlds differ, in what coherence looks at, at one path only. -/
structure OnlyAt (view : ρ → Tree) (p : RemotePath) (w w' : World ρ) : Prop where
  config : w'.config = w.config
  now : w'.conn.now = w.conn.now
  tree : ∀ key, key ≠ p.asStr → view w'.conn.remote key = view w.conn.remote key
  entry : ∀ key, key ≠ p.asStr → w'.store.entry key = w.store.entry key
  validated : ∀ q t, q ≠ p → w'.state.validatedAt q = some t → w.state.validatedAt q = some t

lemma OnlyAt.entries {p : RemotePath} {w w' : World ρ} (h : OnlyAt view p w w')
    (hm : EntriesMatch (view w.conn.remote) w.store)
    (hp : ∀ e, w'.store.entry p.asStr = some e →
      ∃ node, view w'.conn.remote p.asStr = some node ∧ e.attrs.toAttributes.kind = node.kind) :
    EntriesMatch (view w'.conn.remote) w'.store := by
  intro key e he
  by_cases hkey : key = p.asStr
  · subst hkey
    exact hp e he
  · rw [h.tree key hkey]
    rw [h.entry key hkey] at he
    exact hm key e he

lemma OnlyAt.sizes {p : RemotePath} {w w' : World ρ} (h : OnlyAt view p w w')
    (hm : SizesMatch (view w.conn.remote) w)
    (hp : ∀ time e f m, w'.state.validatedAt p = some time → w'.store.entry p.asStr = some e →
      view w'.conn.remote p.asStr = some (.file f m) → e.attrs.size.toNat = f.length) :
    SizesMatch (view w'.conn.remote) w' := by
  intro q time e f m hval hfresh he hf
  by_cases hq : q = p
  · subst hq
    exact hp time e f m hval he hf
  · have hkey : q.asStr ≠ p.asStr := fun heq => hq (RemotePath.ext heq)
    rw [h.now, h.config] at hfresh
    rw [h.entry _ hkey] at he
    rw [h.tree _ hkey] at hf
    exact hm q time e f m (h.validated q time hq hval) hfresh he hf

/-- Chunks stay pieces of their files when the tree changes at one path and the chunks that are
left there are pieces of the new file. -/
lemma sound_of_update {t t' : Tree} {s : Store} {p : Str} (h : s.Sound (PieceOf t))
    (hoff : ∀ key, key ≠ p → t' key = t key)
    (hp : ∀ c k b, s.content p = some c → PieceOf t p c.label k b → PieceOf t' p c.label k b) :
    s.Sound (PieceOf t') := by
  refine h.mono fun key c k b hc hpiece => ?_
  by_cases hkey : key = p
  · subst hkey
    exact hp c k b hc hpiece
  · obtain ⟨f, m, hf, hrest⟩ := hpiece
    exact ⟨f, m, (hoff key hkey).trans hf, hrest⟩

/-- The rule for negative entries: one that is fresh afterwards was so before, for the same
path, or names something that does not exist. -/
lemma NegativesMatch.mono {t t' : Tree} {w w' : World ρ} (hm : NegativesMatch t w)
    (hconfig : w'.config = w.config) (hnow : w'.conn.now = w.conn.now)
    (hcases : ∀ n x time p child, w'.state.negativeAt (n, x) = some time →
      w.conn.now - time < w.config.negativeTtl → w'.state.path n = some p →
      p.join x = .ok child →
      (w.state.negativeAt (n, x) = some time ∧ w.state.path n = some p ∧
        t' child.asStr = t child.asStr) ∨ t' child.asStr = none) : NegativesMatch t' w' := by
  intro n x time p child hneg hfresh hp hjoin
  rw [hnow, hconfig] at hfresh
  rcases hcases n x time p child hneg hfresh hp hjoin with ⟨hneg₀, hp₀, htree⟩ | hnone
  · rw [htree]
    exact hm n x time p child hneg₀ hfresh hp₀ hjoin
  · exact hnone

/-- A call that keeps the tree, the negative entries and the paths of known nodes. -/
lemma NegativesMatch.keep {t t' : Tree} {w w' : World ρ} (hm : NegativesMatch t w)
    (hw : w.state.Wf) (hconfig : w'.config = w.config) (hnow : w'.conn.now = w.conn.now)
    (htree : ∀ key, t key = none → t' key = none)
    (hneg : ∀ key time, w'.state.negativeAt key = some time → w.state.negativeAt key = some time)
    (hpath : ∀ n p, n.val < w.state.nextNode → w'.state.path n = some p →
      w.state.path n = some p) : NegativesMatch t' w' := by
  intro n x time p child hn hfresh hp hjoin
  rw [hnow, hconfig] at hfresh
  have hold := hneg _ _ hn
  exact htree _ (hm n x time p child hold hfresh (hpath n p (hw.negative_lt n x time hold) hp)
    hjoin)

/-! ## The remote's answers -/

/-- `stat` finds a node and describes it. -/
lemma stat_found (hA : StatsTree R view) {c conn : Conn ρ} {p : RemotePath}
    {attributes : FileAttributes} (h : c.stat R p = (.ok attributes, conn)) :
    view conn.remote = view c.remote ∧
      ∃ node, view c.remote p.asStr = some node ∧ Describes attributes node := by
  obtain ⟨hans, rfl⟩ := Conn.stat_eq h
  refine ⟨hA.view_stat _ _, ?_⟩
  cases hnode : view c.remote p.asStr with
  | none =>
      rw [hA.stat_none _ _ hnode] at hans
      cases hans
  | some node =>
      obtain ⟨a, ha, hdesc⟩ := hA.stat_some _ _ _ hnode
      rw [ha] at hans
      cases hans
      exact ⟨node, rfl, hdesc⟩

/-- `stat` fails with not-found where there is nothing, and nowhere else. -/
lemma stat_missing (hA : StatsTree R view) {c conn : Conn ρ} {p : RemotePath} {e : Error}
    (h : c.stat R p = (.error e, conn)) :
    view conn.remote = view c.remote ∧ view c.remote p.asStr = none ∧ e = .notFound := by
  obtain ⟨hans, rfl⟩ := Conn.stat_eq h
  refine ⟨hA.view_stat _ _, ?_⟩
  cases hnode : view c.remote p.asStr with
  | none =>
      rw [hA.stat_none _ _ hnode] at hans
      cases hans
      exact ⟨rfl, rfl⟩
  | some node =>
      obtain ⟨a, ha, -⟩ := hA.stat_some _ _ _ hnode
      rw [ha] at hans
      cases hans

/-! ## Calls that ask about one path -/

lemma Describes.stored_kind {attributes : FileAttributes} {node : RemoteNode}
    (h : Describes attributes node) :
    (StoredAttrs.ofAttributes attributes).toAttributes.kind = node.kind := by
  rw [StoredAttrs.toAttributes_ofAttributes]
  exact h.kind_eq

/-- A call that stores and confirms what the remote reports at one path. -/
lemma Coherent.confirm {w w' : World ρ} {p : RemotePath} (h : Coherent view w)
    (ho : OnlyAt view p w w') (hwf : w'.state.Wf) {attributes : FileAttributes}
    {node : RemoteNode} {content : Option ContentRef}
    (hnode : view w'.conn.remote p.asStr = some node) (hdesc : Describes attributes node)
    (hentry : w'.store.entry p.asStr = some ⟨.ofAttributes attributes, content⟩)
    (hsound : w'.store.Sound (PieceOf (view w'.conn.remote)))
    (hneg : NegativesMatch (view w'.conn.remote) w') : Coherent view w' where
  wf := hwf
  mode := by rw [ho.config]; exact h.mode
  entries := by
    refine ho.entries h.entries fun e he => ⟨node, hnode, ?_⟩
    rw [hentry] at he
    cases he
    exact Describes.stored_kind hdesc
  sizes := by
    refine ho.sizes h.sizes fun _ e f m _ he hf => ?_
    rw [hentry] at he
    cases he
    rw [hnode] at hf
    cases hf
    exact hdesc.2.1
  content := hsound
  negatives := hneg

/-- A call that drops the entry of one path. -/
lemma Coherent.drop {w w' : World ρ} {p : RemotePath} (h : Coherent view w)
    (ho : OnlyAt view p w w') (hwf : w'.state.Wf) (hentry : w'.store.entry p.asStr = none)
    (hsound : w'.store.Sound (PieceOf (view w'.conn.remote)))
    (hneg : NegativesMatch (view w'.conn.remote) w') : Coherent view w' where
  wf := hwf
  mode := by rw [ho.config]; exact h.mode
  entries := ho.entries h.entries fun e he => by rw [hentry] at he; cases he
  sizes := ho.sizes h.sizes fun _ e _ _ _ he => by rw [hentry] at he; cases he
  content := hsound
  negatives := hneg

/-- A call that changes a file and no longer counts its path as confirmed. -/
lemma Coherent.touch {w w' : World ρ} {p : RemotePath} (h : Coherent view w)
    (ho : OnlyAt view p w w') (hwf : w'.state.Wf) {node node' : RemoteNode}
    (hnode : view w.conn.remote p.asStr = some node)
    (hnode' : view w'.conn.remote p.asStr = some node') (hkind : node'.kind = node.kind)
    (hstore : w'.store = w.store.invalidateContent p)
    (hval : w'.state.validatedAt p = none)
    (hneg : NegativesMatch (view w'.conn.remote) w') : Coherent view w' where
  wf := hwf
  mode := by rw [ho.config]; exact h.mode
  entries := by
    refine ho.entries h.entries fun e he => ⟨node', hnode', ?_⟩
    rw [hstore] at he
    obtain ⟨e₀, he₀, hattrs⟩ := entry_of_invalidateContent he
    obtain ⟨n, hn, hk⟩ := h.entries _ e₀ he₀
    rw [hnode] at hn
    cases hn
    rw [← hattrs, hkind]
    exact hk
  sizes := ho.sizes h.sizes fun _ _ _ _ hv => by rw [hval] at hv; cases hv
  content := by
    rw [hstore]
    refine sound_of_update (h.content.invalidateContent p) ho.tree fun c k b hc => ?_
    -- no content is left at the path
    rw [Store.content, Store.entry_invalidateContent, if_pos rfl] at hc
    cases hentry : w.store.entry p.asStr with
    | none =>
        rw [hentry] at hc
        cases hc
    | some e =>
        rw [hentry] at hc
        cases hc
  negatives := hneg

/-- Another tree in which all that the cache speaks for is as it was.  Where there is an entry, the
node is the same, or the entry has no content, is not fresh, and its kind is still right; and no
name that freshly counts as not found has come to exist. -/
structure Unseen (w : World ρ) (t t' : Tree) : Prop where
  entry : ∀ key e, w.store.entry key = some e → t' key = t key ∨
    e.content = none ∧ (∀ p : RemotePath, p.asStr = key → w.metadataFresh p = false) ∧
      (t' key).map RemoteNode.kind = (t key).map RemoteNode.kind
  negative : ∀ n x child, w.freshNegative n x = true → w.childPath n x = .ok child →
    t child.asStr = none → t' child.asStr = none

lemma Unseen.refl (w : World ρ) (t : Tree) : w.Unseen t t :=
  ⟨fun _ _ _ => .inl rfl, fun _ _ _ _ _ => id⟩

/-- The entries and the chunks of the cache are right about such a tree too. -/
lemma Unseen.entries {w : World ρ} {t t' : Tree} (h : w.Unseen t t')
    (hm : EntriesMatch t w.store) : EntriesMatch t' w.store := by
  intro key e he
  obtain ⟨node, hnode, hkind⟩ := hm key e he
  rcases h.entry key e he with hsame | ⟨-, -, hsame⟩
  · exact ⟨node, hsame.trans hnode, hkind⟩
  · rw [hnode, Option.map_some] at hsame
    obtain ⟨node', hnode', hkind'⟩ := Option.map_eq_some_iff.mp hsame
    exact ⟨node', hnode', hkind.trans hkind'.symm⟩

lemma Unseen.content {w : World ρ} {t t' : Tree} (h : w.Unseen t t')
    (hs : w.store.Sound (PieceOf t)) : w.store.Sound (PieceOf t') := by
  refine hs.mono fun key c k b hc hpiece => ?_
  obtain ⟨e, he, hcontent⟩ := Option.bind_eq_some_iff.mp hc
  rcases h.entry key e he with hsame | ⟨hnone, -, -⟩
  · obtain ⟨f, m, hf, hrest⟩ := hpiece
    exact ⟨f, m, hsame.trans hf, hrest⟩
  · rw [hnone] at hcontent
    cases hcontent

/-- A call that changes nothing the cache speaks for, and only gives nodes to paths. -/
lemma coherent_unseen {w : World ρ} (h : Coherent view w) {conn : Conn ρ} {st : State}
    (hunseen : w.Unseen (view w.conn.remote) (view conn.remote)) (hnow : conn.now = w.conn.now)
    (hst : Interns w.state.HasChild w.state st) :
    Coherent view { w with conn := conn, state := st } where
  wf := hst.wf h.wf
  mode := h.mode
  entries := hunseen.entries h.entries
  sizes := by
    intro p time e f m hval hfresh he hf
    rw [hst.validatedAt] at hval
    simp only [hnow] at hfresh
    have hmeta := (metadataFresh_iff h.online).mpr ⟨time, hval, hfresh⟩
    rcases hunseen.entry p.asStr e he with hsame | ⟨-, hstale, -⟩
    · exact h.sizes p time e f m hval hfresh he (hsame.symm.trans hf)
    · rw [hstale p rfl] at hmeta
      cases hmeta
  content := hunseen.content h.content
  negatives := by
    refine h.negatives.mono rfl hnow fun n x time p child hneg hfresh hp hjoin => .inr ?_
    rw [hst.negativeAt] at hneg
    have hp := hst.path_of (h.wf.negative_lt n x time hneg) hp
    exact hunseen.negative n x child ((freshNegative_iff h.online).mpr ⟨time, hneg, hfresh⟩)
      (childPath_ok.mpr ⟨p, hp, hjoin⟩) (h.negatives n x time p child hneg hfresh hp hjoin)

lemma coherent_known {w : World ρ} (h : Coherent view w) {conn : Conn ρ} {st : State}
    (hview : view conn.remote = view w.conn.remote) (hnow : conn.now = w.conn.now)
    (hst : Interns w.state.HasChild w.state st) :
    Coherent view { w with conn := conn, state := st } :=
  coherent_unseen h (hview ▸ Unseen.refl w _) hnow hst

lemma coherent_lookupFound (hA : StatsTree R view) {w : World ρ} (h : Coherent view w)
    {parent : NodeId} {name : Str} {child : RemotePath} {attributes : FileAttributes}
    {conn : Conn ρ} (hstat : w.conn.stat R child = (.ok attributes, conn))
    (hwf : (((w.state.stamp child conn.now).unnegate parent name).intern child).2.Wf) :
    Coherent view
      { w with
        conn := conn
        store := w.store.putAttrs child attributes
        state := (((w.state.stamp child conn.now).unnegate parent name).intern child).2 } := by
  obtain ⟨hview, node, hnode, hdesc⟩ := stat_found hA hstat
  have hnow : conn.now = w.conn.now := by rw [(Conn.stat_eq hstat).2]; rfl
  refine h.confirm (p := child)
    ⟨rfl, hnow, fun _ _ => by rw [hview], fun key hkey => ?_, fun q t hq hval => ?_⟩ hwf
    (by rw [hview]; exact hnode) hdesc (by rw [Store.entry_putAttrs, if_pos rfl])
    (by rw [hview]; exact h.content.putAttrs child attributes) ?_
  · rw [Store.entry_putAttrs, if_neg hkey]
  · simpa [State.validatedAt_stamp, hq] using hval
  · rw [hview]
    refine h.negatives.keep h.wf rfl hnow (fun _ hk => hk) (fun key time hk => ?_)
      (fun n p hn hp => @State.path_of_intern ((w.state.stamp child conn.now).unnegate parent name)
        child p n hn hp)
    rw [State.negativeAt_intern, State.negativeAt_unnegate] at hk
    split at hk
    · cases hk
    · exact hk

lemma coherent_lookupMissing (hA : StatsTree R view) {w : World ρ} (h : Coherent view w)
    {parent : NodeId} {name : Str} {child : RemotePath} {conn : Conn ρ}
    (hchild : w.childPath parent name = .ok child)
    (hstat : w.conn.stat R child = (.error .notFound, conn))
    (hwf : (w.state.negate parent name conn.now).Wf) :
    Coherent view
      { w with
        conn := conn
        store := w.store.remove child
        state := w.state.negate parent name conn.now } := by
  obtain ⟨hview, hnone, -⟩ := stat_missing hA hstat
  have hnow : conn.now = w.conn.now := by rw [(Conn.stat_eq hstat).2]; rfl
  refine h.drop (p := child)
    ⟨rfl, hnow, fun _ _ => by rw [hview], fun key hkey => ?_, fun _ _ _ hval => hval⟩ hwf
    (by rw [Store.entry_remove, if_pos rfl]) (by rw [hview]; exact h.content.remove child) ?_
  · rw [Store.entry_remove, if_neg hkey]
  · rw [hview]
    refine h.negatives.mono rfl hnow fun n x time p q hneg _ hp hjoin => ?_
    rw [State.negativeAt_negate] at hneg
    split at hneg
    · next hkey =>
        cases hkey
        obtain ⟨p', hp', hjoin'⟩ := childPath_ok.mp hchild
        rw [State.path_negate, hp'] at hp
        cases hp
        rw [hjoin'] at hjoin
        cases hjoin
        exact .inr hnone
    · exact .inl ⟨hneg, hp, rfl⟩

lemma coherent_getattrFound (hA : StatsTree R view) {w : World ρ} (h : Coherent view w)
    {path : RemotePath} {attributes : FileAttributes} {conn : Conn ρ}
    (hstat : w.conn.stat R path = (.ok attributes, conn)) :
    Coherent view
      { w with
        conn := conn
        store := w.store.putAttrs path attributes
        state := w.state.stamp path conn.now } := by
  obtain ⟨hview, node, hnode, hdesc⟩ := stat_found hA hstat
  have hnow : conn.now = w.conn.now := by rw [(Conn.stat_eq hstat).2]; rfl
  refine h.confirm (p := path)
    ⟨rfl, hnow, fun _ _ => by rw [hview], fun key hkey => ?_, fun q t hq hval => ?_⟩
    (h.wf.stamp _ _) (by rw [hview]; exact hnode) hdesc (by rw [Store.entry_putAttrs, if_pos rfl])
    (by rw [hview]; exact h.content.putAttrs path attributes) ?_
  · rw [Store.entry_putAttrs, if_neg hkey]
  · simpa [State.validatedAt_stamp, hq] using hval
  · rw [hview]
    exact h.negatives.keep h.wf rfl hnow (fun _ hk => hk) (fun _ _ hk => hk) (fun _ _ _ hp => hp)

lemma coherent_getattrMissing (hA : StatsTree R view) {w : World ρ} (h : Coherent view w)
    {path : RemotePath} {conn : Conn ρ}
    (hstat : w.conn.stat R path = (.error .notFound, conn)) :
    Coherent view { w with conn := conn, store := w.store.remove path } := by
  obtain ⟨hview, -, -⟩ := stat_missing hA hstat
  have hnow : conn.now = w.conn.now := by rw [(Conn.stat_eq hstat).2]; rfl
  refine h.drop (p := path)
    ⟨rfl, hnow, fun _ _ => by rw [hview], fun key hkey => ?_, fun _ _ _ hval => hval⟩ h.wf
    (by rw [Store.entry_remove, if_pos rfl]) (by rw [hview]; exact h.content.remove path) ?_
  · rw [Store.entry_remove, if_neg hkey]
  · rw [hview]
    exact h.negatives.keep h.wf rfl hnow (fun _ hk => hk) (fun _ _ hk => hk) (fun _ _ _ hp => hp)

/-! ## Listings -/

/-- A name of a listing is a child of the directory, as described. -/
lemma describes_of_listed {r : ρ} {path : RemotePath} (hlist : ListsAsFound R view path r)
    {entries : List RemoteDirectoryEntry} (hread : (R.readDir path r).1 = .ok entries)
    {name : Str} {attrs : FileAttributes} (hmem : (name, attrs) ∈ realChildren entries)
    (hvalid : ValidComponent name) :
    ∃ node, view r (childKey path.asStr name) = some node ∧ Describes attrs node := by
  obtain ⟨e, hmem', heq⟩ := List.mem_map.mp hmem
  cases heq
  exact (hlist entries hread).2 e (List.mem_of_mem_filter hmem') hvalid

lemma coherent_listed (hA : StatsTree R view) {w : World ρ} (h : Coherent view w)
    {path : RemotePath} (hlist : ListsAsFound R view path w.conn.remote)
    {entries : List RemoteDirectoryEntry} {conn : Conn ρ}
    (hread : w.conn.readDir R path = (.ok entries, conn)) {st st' : State}
    (hst : StampedBy path conn.now (realChildren entries) w.state st) (hwf : st'.Wf)
    (hval : ∀ q t, st'.validatedAt q = some t → q = path ∨ st.validatedAt q = some t)
    (hneg : ∀ key, st'.negativeAt key = st.negativeAt key) (hpath : ∀ n, st'.path n = st.path n) :
    Coherent view
      { w with
        conn := conn
        store := w.store.recordListing path (realChildren entries)
        state := st' } := by
  obtain ⟨hans, hconn⟩ := Conn.readDir_eq hread
  have hview : view conn.remote = view w.conn.remote := by
    rw [hconn]
    exact hA.view_readDir _ _
  have hnow : conn.now = w.conn.now := by rw [hconn]; rfl
  have hdir := (hlist entries hans).1
  have hcases := Store.entry_recordListing path (realChildren entries) w.store
  refine ⟨hwf, h.mode, ?_, ?_, by rw [hview]; exact h.content.recordListing _ _, ?_⟩
  · intro key e he
    rw [hview]
    rcases hcases key with ⟨name, attrs, content, hmem, hvalid, rfl, hentry⟩ | ⟨-, hentry⟩
    · rw [hentry] at he
      cases he
      obtain ⟨node, hnode, hdesc⟩ := describes_of_listed hlist hans hmem hvalid
      exact ⟨node, hnode, Describes.stored_kind hdesc⟩
    · rw [hentry] at he
      exact h.entries key e he
  · intro q time e f m hq hfresh he hf
    rw [hview] at hf
    rcases hcases q.asStr with ⟨name, attrs, content, hmem, hvalid, hkey, hentry⟩ | ⟨hno, hentry⟩
    · rw [hentry] at he
      cases he
      obtain ⟨node, hnode, hdesc⟩ := describes_of_listed hlist hans hmem hvalid
      rw [hkey, hnode] at hf
      cases hf
      exact hdesc.2.1
    · rw [hentry] at he
      rcases hval q time hq with rfl | hq
      · rw [hdir] at hf
        cases hf
      · rcases hst.validatedAt q with ⟨-, c, hc, hchild⟩ | hkeep
        · obtain ⟨hmem, hvalid⟩ := mem_stampable hc
          exact absurd hchild (hno c.1 c.2 hmem hvalid)
        · simp only [hnow] at hfresh
          exact h.sizes q time e f m (hkeep ▸ hq) hfresh he hf
  · rw [hview]
    refine h.negatives.keep h.wf rfl hnow (fun _ hk => hk) (fun key time hk => ?_)
      (fun n p hn hp => ?_)
    · rwa [hneg, hst.negativeAt] at hk
    · rw [hpath] at hp
      rcases hst.path_cases hp with hold | ⟨name, -, hle⟩
      · exact hold
      · exact absurd hn (not_lt.mpr hle)

/-! ## Calls that change one path -/

/-- A tree updated at one path has everything else as before. -/
lemma update_off {t : Tree} {p : RemotePath} {node : Option RemoteNode} {key : Str}
    (h : key ≠ p.asStr) : Function.update t p.asStr node key = t key :=
  Function.update_of_ne h _ _

lemma update_none {t : Tree} {p : Str} {node node' : RemoteNode} (hp : t p = some node)
    {key : Str} (h : t key = none) : Function.update t p (some node') key = none := by
  have hne : key ≠ p := by
    rintro rfl
    rw [hp] at h
    cases h
  rw [Function.update_of_ne hne]
  exact h

lemma coherent_touched {w : World ρ} (h : Coherent view w) {p : RemotePath} {conn : Conn ρ}
    {st : State} {node node' : RemoteNode} (hnow : conn.now = w.conn.now)
    (hnode : view w.conn.remote p.asStr = some node) (hkind : node'.kind = node.kind)
    (hview : view conn.remote = Function.update (view w.conn.remote) p.asStr (some node'))
    (hwf : st.Wf) (hval : ∀ q, st.validatedAt q = (w.state.unstamp p).validatedAt q)
    (hneg : ∀ key, st.negativeAt key = w.state.negativeAt key)
    (hpath : ∀ n, st.path n = w.state.path n) :
    Coherent view { w with conn := conn, store := w.store.invalidateContent p, state := st } := by
  refine h.touch (p := p)
    ⟨rfl, hnow, fun key hkey => by rw [hview, update_off hkey], fun key hkey => ?_,
      fun q t _ hq => ?_⟩ hwf hnode (by rw [hview, Function.update_self]) hkind rfl ?_ ?_
  · rw [Store.entry_invalidateContent, if_neg hkey]
  · rw [hval] at hq
    exact validatedAt_of_unstamp hq
  · rw [hval, State.validatedAt_unstamp, if_pos rfl]
  · rw [hview]
    refine h.negatives.keep h.wf rfl hnow (fun _ => update_none hnode) (fun key time hk => ?_)
      (fun n q _ hq => ?_)
    · rwa [hneg] at hk
    · rwa [hpath] at hq

/-- The conditions under which a new path leaves no negative entry behind. -/
def NegativesCleared (w : World ρ) (parent : NodeId) (name : Str) (child : RemotePath) : Prop :=
  ∀ n x, w.freshNegative n x = true → (n, x) ≠ (parent, name) → w.childPath n x ≠ .ok child

/-- The state after a child has been made: it counts as confirmed, and its name no longer as not
found. -/
structure MadeIn (w : World ρ) (parent : NodeId) (name : Str) (child : RemotePath) (now : ℕ)
    (st : State) : Prop where
  validated : ∀ q, st.validatedAt q = (w.state.stamp child now).validatedAt q
  negative : ∀ key, st.negativeAt key = (w.state.unnegate parent name).negativeAt key
  path : ∀ n p, n.val < w.state.nextNode → st.path n = some p → w.state.path n = some p

lemma madeIn_intern (w : World ρ) (parent : NodeId) (name : Str) (child : RemotePath) (now : ℕ) :
    w.MadeIn parent name child now
      (((w.state.stamp child now).unnegate parent name).intern child).2 where
  validated q := by rw [State.validatedAt_intern, State.validatedAt_unnegate]
  negative key := by
    rw [State.negativeAt_intern]
    rfl
  path n p hn hp := @State.path_of_intern ((w.state.stamp child now).unnegate parent name)
    child p n hn hp

lemma MadeIn.openHandle {w : World ρ} {parent : NodeId} {name : Str} {child : RemotePath} {now : ℕ}
    {st : State} (h : w.MadeIn parent name child now st) (node : NodeId) (path : RemotePath) :
    w.MadeIn parent name child now (st.openHandle node path).2 where
  validated q := (State.validatedAt_openHandle ..).trans (h.validated q)
  negative key := (State.negativeAt_openHandle ..).trans (h.negative key)
  path n p hn hp := h.path n p hn hp

lemma coherent_made {w : World ρ} (h : Coherent view w) {parent : NodeId} {name : Str}
    {parentPath child : RemotePath} {attributes : FileAttributes} {conn : Conn ρ} {st : State}
    {node : RemoteNode} (hnow : conn.now = w.conn.now)
    (hnone : view w.conn.remote child.asStr = none) (hdesc : Describes attributes node)
    (hview : view conn.remote = Function.update (view w.conn.remote) child.asStr (some node))
    (hclear : w.NegativesCleared parent name child) (hwf : st.Wf)
    (hmade : w.MadeIn parent name child conn.now st) :
    Coherent view
      { w with
        conn := conn
        store := (w.store.putAttrs child attributes).invalidateChildren parentPath
        state := st } := by
  -- nothing was there before, so nothing is cached
  have hempty : w.store.entry child.asStr = none := by
    cases he : w.store.entry child.asStr with
    | none => rfl
    | some e =>
        obtain ⟨n, hn, -⟩ := h.entries _ e he
        rw [hnone] at hn
        cases hn
  refine h.confirm (p := child)
    ⟨rfl, hnow, fun key hkey => by rw [hview, update_off hkey], fun key hkey => ?_,
      fun q t hq hv => ?_⟩ hwf (by rw [hview, Function.update_self]) hdesc
    (by rw [Store.entry_invalidateChildren, Store.entry_putAttrs, if_pos rfl]) ?_ ?_
  · rw [Store.entry_invalidateChildren, Store.entry_putAttrs, if_neg hkey]
  · rw [hmade.validated, State.validatedAt_stamp, if_neg hq] at hv
    exact hv
  · rw [hview]
    refine sound_of_update ((h.content.putAttrs child attributes).invalidateChildren parentPath)
      (fun key hkey => update_off hkey) fun c k b hc => ?_
    rw [Store.content, Store.entry_invalidateChildren, Store.entry_putAttrs, if_pos rfl,
      hempty] at hc
    cases hc
  · rw [hview]
    refine h.negatives.mono rfl hnow fun n x time p q hk hfresh hp hjoin => ?_
    rw [hmade.negative, State.negativeAt_unnegate] at hk
    split at hk
    · cases hk
    · next hkey =>
        have hp₀ := hmade.path n p (h.wf.negative_lt n x time hk) hp
        have hne : q ≠ child := by
          rintro rfl
          exact hclear n x ((freshNegative_iff h.online).mpr ⟨time, hk, hfresh⟩) hkey
            (childPath_ok.mpr ⟨p, hp₀, hjoin⟩)
        exact .inl ⟨hk, hp₀, update_off fun heq => hne (RemotePath.ext heq)⟩

lemma coherent_forgotten {w : World ρ} (h : Coherent view w) {parent : NodeId} {name : Str}
    {parentPath child : RemotePath} {conn : Conn ρ} (hnow : conn.now = w.conn.now)
    (hres : w.resolve parent name = .ok (parentPath, child))
    (hview : view conn.remote = Function.update (view w.conn.remote) child.asStr none) :
    Coherent view (w.forget parent name parentPath child conn) := by
  obtain ⟨hparent, hjoin⟩ := resolve_ok hres
  refine h.drop (p := child)
    ⟨rfl, hnow, fun key hkey => ?_, fun key hkey => ?_, fun _ _ _ hv => hv⟩
    (h.wf.negate hparent _ _) ?_ ?_ ?_
  · show view conn.remote key = _
    rw [hview, update_off hkey]
  · show ((w.store.remove child).invalidateChildren parentPath).entry key = _
    rw [Store.entry_invalidateChildren, Store.entry_remove, if_neg hkey]
  · show ((w.store.remove child).invalidateChildren parentPath).entry _ = _
    rw [Store.entry_invalidateChildren, Store.entry_remove, if_pos rfl]
  · show ((w.store.remove child).invalidateChildren parentPath).Sound (PieceOf (view conn.remote))
    rw [hview]
    refine sound_of_update ((h.content.remove child).invalidateChildren parentPath)
      (fun key hkey => update_off hkey) fun c k b hc => ?_
    rw [Store.content, Store.entry_invalidateChildren, Store.entry_remove, if_pos rfl] at hc
    cases hc
  · show NegativesMatch (view conn.remote) (w.forget parent name parentPath child conn)
    rw [hview]
    refine h.negatives.mono rfl hnow fun n x time p q hk _ hp hj => ?_
    by_cases hq : q = child
    · exact .inr (by rw [hq, Function.update_self])
    · have hoff : Function.update (view w.conn.remote) child.asStr none q.asStr =
          view w.conn.remote q.asStr := update_off fun heq => hq (RemotePath.ext heq)
      rw [forget, State.negativeAt_negate] at hk
      split at hk
      · next hkey =>
          cases hkey
          have hp' : w.state.path parent = some p := hp
          rw [hparent] at hp'
          cases hp'
          rw [hjoin] at hj
          exact absurd (Except.ok.inj hj).symm hq
      · exact .inl ⟨hk, hp, hoff⟩

/-- A file whose size is set to what it is, is the same file. -/
lemma resize_eq_self {f : Bytes} {size : Option UInt64}
    (h : (resize f size).length = f.length) : resize f size = f := by
  cases size with
  | none => rfl
  | some n =>
      simp only [resize, List.length_append, List.length_take, List.length_replicate] at h ⊢
      have hn : n.toNat = f.length := by omega
      rw [hn]
      simp

lemma SetTo.kind_eq {a : SetAttributes} {node node' : RemoteNode} (h : SetTo a node node') :
    node'.kind = node.kind := by
  cases node with
  | dir =>
      cases h
      rfl
  | file f m =>
      obtain ⟨m', rfl⟩ := h
      rfl

lemma coherent_setattrDone {w : World ρ} (h : Coherent view w) {path : RemotePath}
    {set : SetAttributes} (hdoes : (Mutation.setattr path set).Does R view w.conn.remote)
    {attributes : FileAttributes} {conn : Conn ρ}
    (hset : w.conn.setattr R path set = (.ok attributes, conn)) :
    Coherent view
      { w with
        conn := conn
        store := w.store.putAttrs path attributes
        state := w.state.stamp path conn.now } := by
  obtain ⟨hans, hconn⟩ := Conn.setattr_eq hset
  have hnow : conn.now = w.conn.now := by rw [hconn]; rfl
  obtain ⟨node, node', hnode, hto, hdesc, hview⟩ := hdoes _ hans
  have hview : view conn.remote =
      Function.update (view w.conn.remote) path.asStr (some node') := by
    rw [hconn]
    exact hview
  refine h.confirm (p := path)
    ⟨rfl, hnow, fun key hkey => by rw [hview, update_off hkey], fun key hkey => ?_,
      fun q t hq hv => ?_⟩ (h.wf.stamp _ _) (by rw [hview, Function.update_self]) hdesc
    (by rw [Store.entry_putAttrs, if_pos rfl]) ?_ ?_
  · rw [Store.entry_putAttrs, if_neg hkey]
  · simpa [State.validatedAt_stamp, hq] using hv
  · rw [hview]
    refine sound_of_update (h.content.putAttrs path attributes) (fun key hkey => update_off hkey)
      fun c k b hc hpiece => ?_
    -- content survives only at an unchanged size, and then the bytes are the same
    rw [Store.content, Store.entry_putAttrs, if_pos rfl] at hc
    obtain ⟨-, hfresh⟩ := keptContent_eq_some.mp hc
    obtain ⟨f, m, hf, hlen, hb⟩ := hpiece
    rw [hnode] at hf
    cases hf
    obtain ⟨m', rfl⟩ := hto
    have hsize : c.size = attributes.size := by
      by_contra hne
      exact hfresh (.inl hne)
    have hlabel : c.label.size = attributes.size := hsize
    have hsame : resize f set.size = f := by
      apply resize_eq_self
      rw [← hdesc.2.1, ← hlen, hlabel]
    exact ⟨resize f set.size, m', Function.update_self _ _ _, by rw [hsame]; exact hlen,
      by rw [hsame]; exact hb⟩
  · rw [hview]
    exact h.negatives.keep h.wf rfl hnow (fun _ => update_none hnode) (fun _ _ hk => hk)
      (fun _ _ _ hp => hp)

/-! ## Reads -/

lemma stat_reachable (hA : StatsTree R view) (p : RemotePath) (r : ρ) (m : String) :
    (R.stat p r).1 ≠ .error (.unavailable m) := by
  cases hnode : view r p.asStr with
  | none => simp [hA.stat_none p r hnode]
  | some node =>
      obtain ⟨a, ha, -⟩ := hA.stat_some p r node hnode
      simp [ha]

/-- Attributes agree with a node, as far as the cache promises. -/
def Agrees (attributes : FileAttributes) (node : RemoteNode) : Prop :=
  attributes.kind = node.kind ∧ ∀ f m, node = .file f m → attributes.size.toNat = f.length

lemma Describes.agrees {attributes : FileAttributes} {node : RemoteNode}
    (h : Describes attributes node) : Agrees attributes node := by
  refine ⟨h.kind_eq, ?_⟩
  rintro f m rfl
  exact h.2.1

/-- Fresh attributes agree with the tree. -/
lemma Coherent.fresh_agrees {w : World ρ} (h : Coherent view w) {p : RemotePath}
    {attributes : FileAttributes} (hfresh : w.freshAttrs p = some attributes) :
    ∃ node, view w.conn.remote p.asStr = some node ∧ Agrees attributes node := by
  obtain ⟨hmeta, hattrs⟩ := freshAttrs_eq_some.mp hfresh
  obtain ⟨t, hval, hage⟩ := (metadataFresh_iff h.online).mp hmeta
  rw [Store.getAttrs_eq] at hattrs
  obtain ⟨e, hentry, rfl⟩ := Option.map_eq_some_iff.mp hattrs
  obtain ⟨node, hnode, hkind⟩ := h.entries _ e hentry
  refine ⟨node, hnode, hkind, ?_⟩
  rintro f m rfl
  exact h.sizes p t e f m hval hage hentry hnode

/-- What `getattr` answers agrees with the tree. -/
lemma Coherent.getattr_agrees (hA : StatsTree R view) {w w' : World ρ} (h : Coherent view w)
    {n : NodeId} {p : RemotePath} (hp : w.state.path n = some p) {metadata : FileMetadata}
    (hok : w.getattr R n = (.ok metadata, w')) :
    ∃ node, view w.conn.remote p.asStr = some node ∧ Agrees metadata.attributes node := by
  rcases getattr_answer (R := R) h.online hp with ⟨attributes, hfresh, heq⟩ | ⟨-, heq⟩
  · rw [heq] at hok
    cases hok
    exact h.fresh_agrees hfresh
  · rw [heq] at hok
    have hquote := getattrRemote_quotes w n p (stat_reachable hA p _)
    rw [hok] at hquote
    obtain ⟨-, node, hnode, hdesc⟩ := stat_found hA
      (show w.conn.stat R p = (.ok metadata.attributes, (w.conn.stat R p).2) from
        Prod.ext hquote.symm rfl)
    exact ⟨node, hnode, Describes.agrees hdesc⟩

/-- A read of the file at `path` with attributes that agree returns its bytes. -/
lemma Coherent.read_exact (hA : StatsTree R view) {w : World ρ} (h : Coherent view w)
    {path : RemotePath} {f : Bytes} {m : Option Int}
    (hf : view w.conn.remote path.asStr = some (.file f m)) (hfits : f.length ≤ 2 ^ 63)
    {attributes : FileAttributes}
    (hsize : attributes.size.toNat = f.length) (offset : UInt64) (size : UInt32) :
    ∃ s' c', w.store.read R path attributes offset size w.conn =
        (.ok (Store.requested f offset size), s', c') ∧
      s'.Sound (PieceOf (view w.conn.remote)) := by
  have hpieces : ∀ k b,
      PieceOf (view w.conn.remote) path.asStr (attributes.label w.store.chunkSize) k b ↔
        b = slice f (k * w.store.chunkSize) (k * w.store.chunkSize + w.store.chunkSize) := by
    intro k b
    constructor
    · rintro ⟨f', m', hf', -, rfl⟩
      rw [hf] at hf'
      cases hf'
      rfl
    · rintro rfl
      exact ⟨f, m, hf, hsize, rfl⟩
  obtain ⟨s', c', heq, hs', -⟩ := Store.read_ok hA.toHonestReads h.content hf hsize hpieces
    (Store.noOverflow_of_size hfits w.store.chunkSize_lt) offset size
  exact ⟨s', c', heq, hs'⟩

/-- A read keeps the mount coherent, if the handle is at the path of its node or there is no
file at the handle's path. -/
lemma coherent_readContent (hA : StatsTree R view) (hsize : FilesFit view) {w w' : World ρ}
    (hw : Coherent view w) (h : Coherent view w') {file : OpenFile} {metadata : FileMetadata}
    (hok : w.getattr R file.node = (.ok metadata, w'))
    (hview : view w'.conn.remote = view w.conn.remote)
    (hcond : ∀ p, w.state.path file.node = some p → p ≠ file.path →
      ∀ f m, view w.conn.remote file.path.asStr ≠ some (.file f m))
    (offset : UInt64) (size : UInt32) :
    Coherent view
      { w' with
        store := (w'.store.read R file.path metadata.attributes offset size w'.conn).2.1
        conn := (w'.store.read R file.path metadata.attributes offset size w'.conn).2.2 } := by
  obtain ⟨hframe, hreads⟩ :=
    Store.read_frame (R := R) file.path metadata.attributes offset size w'.store w'.conn
  have hsame := hreads.view hA.toHonestReads
  have hnow := hreads.now
  -- the stored attributes are the ones before: no entry is new, or none is touched
  have hstore : (w'.store.read R file.path metadata.attributes offset size w'.conn).2.1.Sound
      (PieceOf (view w'.conn.remote)) ∧ ∀ key e,
      (w'.store.read R file.path metadata.attributes offset size w'.conn).2.1.entry key = some e →
        ∃ e₀, w'.store.entry key = some e₀ ∧ e₀.attrs = e.attrs := by
    by_cases hfile : ∃ f m, view w'.conn.remote file.path.asStr = some (.file f m)
    · obtain ⟨f, m, hf⟩ := hfile
      obtain ⟨p, hp⟩ : ∃ p, w.state.path file.node = some p := by
        cases hp : w.state.pathOf file.node with
        | error e => simp [getattr, hp] at hok
        | ok p => exact ⟨p, State.pathOf_ok.mp hp⟩
      obtain rfl : p = file.path := by
        by_contra hne
        exact hcond p hp hne f m (hview ▸ hf)
      obtain ⟨node, hnode, hagree⟩ := hw.getattr_agrees hA hp hok
      rw [hview, hnode] at hf
      cases hf
      have hf' : view w'.conn.remote file.path.asStr = some (.file f m) := hview ▸ hnode
      obtain ⟨s', c', heq, hsound⟩ :=
        h.read_exact hA hf' (hsize _ _ _ _ hf') (hagree.2 f m rfl) offset size
      rw [heq] at hframe ⊢
      refine ⟨hsound, fun key e he => ?_⟩
      by_cases hkey : key = file.path.asStr
      · have hattrs := getattr_ok_entry hp hok
        rw [Store.getAttrs_eq] at hattrs
        obtain ⟨e₀, he₀, -⟩ := Option.map_eq_some_iff.mp hattrs
        obtain ⟨e', he', hsame'⟩ := hframe.attrs_kept e₀ he₀
        rw [hkey] at he ⊢
        rw [he] at he'
        cases he'
        exact ⟨e₀, he₀, hsame'.symm⟩
      · exact ⟨e, (hframe.entry_ne key hkey).symm.trans he, rfl⟩
    · have hno : ∀ f m, view w'.conn.remote file.path.asStr ≠ some (.file f m) :=
        fun f m hf => hfile ⟨f, m, hf⟩
      obtain ⟨hsound, hentry⟩ :=
        Store.read_no_file hA metadata.attributes h.content hno offset size
      exact ⟨hsound, fun key e he => ⟨e, (hentry key).symm.trans he, rfl⟩⟩
  refine ⟨h.wf, h.mode, ?_, ?_, by rw [hsame]; exact hstore.1, ?_⟩
  · intro key e he
    obtain ⟨e₀, he₀, hattrs⟩ := hstore.2 key e he
    rw [hsame, ← hattrs]
    exact h.entries key e₀ he₀
  · intro p time e f m hval hfresh he hf
    obtain ⟨e₀, he₀, hattrs⟩ := hstore.2 p.asStr e he
    simp only [hnow, hsame] at hfresh hf
    rw [← hattrs]
    exact h.sizes p time e₀ f m hval hfresh he₀ hf
  · rw [hsame]
    exact h.negatives.keep h.wf rfl hnow (fun _ hk => hk) (fun _ _ hk => hk) (fun _ _ _ hp => hp)

/-! ## Renames -/

/-- What a rename must find for the mount to stay coherent: no entry stays at the target unless
the source's replaces it, the source's size is right if it comes to count as confirmed, and no
other negative entry names a path that comes into being. -/
structure RenameCareful (view : ρ → Tree) (w : World ρ) (parent : NodeId) (name : Str)
    (newParent : NodeId) (newName : Str) (src dst : RemotePath) : Prop where
  entry : w.store.entry dst.asStr ≠ none → w.store.entry src.asStr ≠ none
  size : w.metadataFresh dst = true → ∀ e f m, w.store.entry src.asStr = some e →
    view w.conn.remote src.asStr = some (.file f m) → e.attrs.size.toNat = f.length
  negative : ∀ n x q, w.freshNegative n x = true → (n, x) ≠ (newParent, newName) →
    w.childPath n x = .ok q → q ≠ dst ∧ (Below dst.asStr q.asStr →
      view w.conn.remote (src.asStr ++ q.asStr.drop dst.asStr.length) = none)
  same : src = dst → (parent, name) = (newParent, newName)

/-- A key outside the two paths of a rename keeps its node, if it has one. -/
lemma rename_other {t : Tree} {src dst key : Str} {node : RemoteNode} (hkey : t key = some node)
    (hbelow : ∀ q, Below dst q → t q = none) (hd : key ≠ dst) (hs : key ≠ src)
    (hsrc : ¬ Below src key) : t.rename src dst key = some node := by
  have hdst : ¬ Below dst key := fun hb => by
    rw [hbelow key hb] at hkey
    cases hkey
  rw [Tree.rename, if_neg hd, if_neg hdst, if_neg (by simp [hs, hsrc])]
  exact hkey

@[simp] lemma rename_dst (t : Tree) (src dst : Str) : t.rename src dst dst = t src := by
  simp [Tree.rename]

section Rename

variable {w : World ρ} {parent newParent : NodeId} {name newName : Str}
  {srcParent dstParent src dst : RemotePath}

/-- The entries after a rename of something else than itself. -/
lemma entries_renamed (h : EntriesMatch (view w.conn.remote) w.store)
    (hbelow : ∀ q, Below dst.asStr q → view w.conn.remote q = none)
    (hentry : w.store.entry dst.asStr ≠ none → w.store.entry src.asStr ≠ none) :
    EntriesMatch ((view w.conn.remote).rename src.asStr dst.asStr) (w.store.rename src dst) := by
  intro key e he
  rw [Store.entry_rename] at he
  split at he
  · cases he
  · next hsrc =>
      split at he
      · next hkey =>
          subst hkey
          rw [rename_dst]
          cases hs : w.store.entry src.asStr with
          | some e' =>
              rw [hs] at he
              cases he
              exact h _ e hs
          | none =>
              rw [hs] at he
              have hdst : w.store.entry dst.asStr = some e := he
              exact absurd hs (hentry (by rw [hdst]; simp))
      · next hd =>
          split at he
          · cases he
          · next hs =>
              obtain ⟨node, hnode, hkind⟩ := h key e he
              exact ⟨node, rename_other hnode hbelow hd hs hsrc, hkind⟩

/-- The chunks after a rename of something else than itself. -/
lemma content_renamed (h : w.store.Sound (PieceOf (view w.conn.remote)))
    (hbelow : ∀ q, Below dst.asStr q → view w.conn.remote q = none)
    (hentry : w.store.entry dst.asStr ≠ none → w.store.entry src.asStr ≠ none) :
    (w.store.rename src dst).Sound (PieceOf ((view w.conn.remote).rename src.asStr dst.asStr)) := by
  refine h.rename ?_ ?_ ?_
  · rintro c k b - ⟨f, m, hf, hrest⟩
    exact ⟨f, m, by rw [rename_dst]; exact hf, hrest⟩
  · intro hnone c k b hc
    have hsome : w.store.entry dst.asStr ≠ none := by
      intro hd
      rw [Store.content, hd] at hc
      cases hc
    exact absurd hnone (hentry hsome)
  · rintro key c k b hs hd hsrc - ⟨f, m, hf, hrest⟩
    exact ⟨f, m, rename_other hf hbelow hd hs hsrc, hrest⟩

/-- The negative entries after a rename of something else than itself. -/
lemma negatives_renamed (h : Coherent view w) (hne : src ≠ dst) {conn : Conn ρ}
    (hnow : conn.now = w.conn.now)
    (hres : w.resolveRename parent name newParent newName = .ok (srcParent, dstParent, src, dst))
    {node : RemoteNode} (hnode : view w.conn.remote src.asStr = some node)
    (hbelow : ∀ q, Below dst.asStr q → view w.conn.remote q = none)
    (hcare : w.RenameCareful view parent name newParent newName src dst) (store : Store) :
    NegativesMatch ((view w.conn.remote).rename src.asStr dst.asStr)
      { w with
        conn := conn
        store := store
        state := (((w.state.renamePath src dst).unstamp src).negate parent name
          conn.now).unnegate newParent newName } := by
  obtain ⟨hparent, -, hjoin, hjoin'⟩ := resolveRename_ok hres
  obtain ⟨hvalid, hsrc⟩ := RemotePath.join_ok_iff.mp hjoin
  obtain ⟨hvalid', hdst⟩ := RemotePath.join_ok_iff.mp hjoin'
  have htrim : trimEndSlashes src.asStr = src.asStr := hsrc ▸ trimEndSlashes_childKey hvalid
  have htrim' : trimEndSlashes dst.asStr = dst.asStr := hdst ▸ trimEndSlashes_childKey hvalid'
  refine h.negatives.mono rfl hnow fun n x time p q hk hfresh hp hj => .inr ?_
  rw [State.negativeAt_unnegate, State.negativeAt_negate, State.negativeAt_unstamp,
    State.negativeAt_renamePath] at hk
  rw [State.path_unnegate, State.path_negate, State.path_unstamp, State.path_renamePath] at hp
  split at hk
  · cases hk
  · next hcleared =>
      split at hk
      · -- the entry the rename itself makes, for the source
        next hkey =>
          cases hkey
          rw [if_neg] at hp
          · rw [hparent] at hp
            cases hp
            rw [hjoin] at hj
            cases hj
            have hnot : ¬ Below dst.asStr src.asStr := fun hb => by
              rw [hbelow _ hb] at hnode
              cases hnode
            have hs : src.asStr ≠ dst.asStr := fun heq => hne (RemotePath.ext heq)
            rw [Tree.rename, if_neg hs, if_neg hnot, if_pos (.inl rfl)]
          · intro hn
            have hself := h.wf.node_path src _ hn
            rw [hparent] at hself
            cases hself
            exact childKey_ne _ _ hvalid hsrc.symm
      · split at hp
        · -- an entry of the renamed directory itself
          next hn =>
            cases hp
            obtain ⟨hx, hq⟩ := RemotePath.join_ok_iff.mp hj
            have hold := h.negatives n x time src (src.child x hx) hk hfresh
              (h.wf.node_path src n hn) (src.join_eq_ok hx)
            have hb : Below dst.asStr q.asStr := by
              rw [hq]
              exact below_childKey htrim' x
            have hqd : q.asStr ≠ dst.asStr := by
              rw [hq]
              exact childKey_ne _ _ hx
            rw [Tree.rename, if_neg hqd, if_pos hb]
            have hkey : src.asStr ++ q.asStr.drop dst.asStr.length = childKey src.asStr x := by
              rw [hq, childKey, childKey, htrim, htrim', List.drop_left]
            rw [hkey]
            exact hold
        · have hold := h.negatives n x time p q hk hfresh hp hj
          obtain ⟨hqd, hqb⟩ := hcare.negative n x q
            ((freshNegative_iff h.online).mpr ⟨time, hk, hfresh⟩) hcleared
            (childPath_ok.mpr ⟨p, hp, hj⟩)
          have hqd' : q.asStr ≠ dst.asStr := fun heq => hqd (RemotePath.ext heq)
          unfold Tree.rename
          rw [if_neg hqd']
          split
          · next hb => exact hqb hb
          · split
            · rfl
            · exact hold

/-- What is confirmed after a rename was confirmed before it, and is not its source. -/
lemma validatedAt_renamed {now : ℕ} {q : RemotePath} {t : ℕ}
    (hq : ((((w.state.renamePath src dst).unstamp src).negate parent name now).unnegate newParent
      newName).validatedAt q = some t) : q ≠ src ∧ w.state.validatedAt q = some t := by
  simp only [State.validatedAt_unnegate, State.validatedAt_negate, State.validatedAt_unstamp,
    State.validatedAt_renamePath] at hq
  split at hq
  · cases hq
  · next hs => exact ⟨hs, hq⟩

/-- The sizes after a rename of something else than itself. -/
lemma sizes_renamed (h : Coherent view w) {conn : Conn ρ} (hnow : conn.now = w.conn.now)
    (hbelow : ∀ q, Below dst.asStr q → view w.conn.remote q = none)
    (hcare : w.RenameCareful view parent name newParent newName src dst) :
    SizesMatch ((view w.conn.remote).rename src.asStr dst.asStr)
      { w with
        conn := conn
        store :=
          ((w.store.rename src dst).invalidateChildren srcParent).invalidateChildren dstParent
        state := (((w.state.renamePath src dst).unstamp src).negate parent name
          conn.now).unnegate newParent newName } := by
  intro q time e f m hq hfresh he hf
  obtain ⟨hqs, hq₀⟩ := validatedAt_renamed hq
  simp only [Store.entry_invalidateChildren, hnow] at he hfresh
  by_cases hqd : q = dst
  · subst hqd
    rw [rename_dst] at hf
    rw [Store.entry_rename, Option.ite_none_left_eq_some, if_pos rfl] at he
    obtain ⟨-, he⟩ := he
    cases hs : w.store.entry src.asStr with
    | some e' =>
        rw [hs] at he
        cases he
        exact hcare.size ((metadataFresh_iff h.online).mpr ⟨time, hq₀, hfresh⟩) e f m hs hf
    | none =>
        rw [hs] at he
        have hdst : w.store.entry q.asStr = some e := he
        exact absurd hs (hcare.entry (by rw [hdst]; simp))
  · have hqd' : q.asStr ≠ dst.asStr := fun heq => hqd (RemotePath.ext heq)
    have hqs' : q.asStr ≠ src.asStr := fun heq => hqs (RemotePath.ext heq)
    rw [Store.entry_rename, Option.ite_none_left_eq_some, if_neg hqd', if_neg hqs'] at he
    obtain ⟨hsrc, he⟩ := he
    obtain ⟨n, hn, -⟩ := h.entries _ e he
    rw [rename_other hn hbelow hqd' hqs' hsrc] at hf
    cases hf
    exact h.sizes q time e f m hq₀ hfresh he hn

/-- Renaming a path to itself evicts what is cached below it, and nothing else. -/
lemma coherent_renamed_self (h : Coherent view w) {conn : Conn ρ} (hnow : conn.now = w.conn.now)
    (hview : view conn.remote = view w.conn.remote) (hkey : (parent, name) = (newParent, newName))
    (hwf : ((((w.state.renamePath src src).unstamp src).negate parent name
      conn.now).unnegate newParent newName).Wf) :
    Coherent view
      { w with
        conn := conn
        store :=
          ((w.store.rename src src).invalidateChildren srcParent).invalidateChildren dstParent
        state := (((w.state.renamePath src src).unstamp src).negate parent name
          conn.now).unnegate newParent newName } := by
  have hkept : ∀ key e, (w.store.rename src src).entry key = some e →
      w.store.entry key = some e := by
    intro key e he
    rcases entry_rename_cases he with ⟨rfl, hsrc⟩ | hold
    · exact hsrc
    · exact hold
  refine ⟨hwf, h.mode, ?_, ?_, ?_, ?_⟩
  · rw [hview]
    intro key e he
    simp only [Store.entry_invalidateChildren] at he
    exact h.entries key e (hkept key e he)
  · rw [hview]
    intro q time e f m hq hfresh he hf
    simp only [Store.entry_invalidateChildren, hnow] at he hfresh
    exact h.sizes q time e f m (validatedAt_renamed hq).2 hfresh (hkept _ e he) hf
  · rw [hview]
    refine Store.Sound.invalidateChildren (Store.Sound.invalidateChildren ?_ _) _
    exact h.content.rename (fun _ _ _ _ hG => hG) (fun _ _ _ _ _ hG => hG)
      (fun _ _ _ _ _ _ _ _ hG => hG)
  · rw [hview]
    refine h.negatives.keep h.wf rfl hnow (fun _ hk => hk) (fun key time hk => ?_)
      (fun n p _ hp => ?_)
    · simp only [State.negativeAt_unnegate, State.negativeAt_negate] at hk
      rw [← hkey] at hk
      split at hk
      · cases hk
      · rwa [State.negativeAt_unstamp, State.negativeAt_renamePath] at hk
    · simp only [State.path_unnegate, State.path_negate, State.path_unstamp,
        State.path_renamePath] at hp
      split at hp
      · next hn =>
          cases hp
          exact h.wf.node_path src n hn
      · exact hp

/-- A careful rename keeps the mount coherent. -/
lemma coherent_renamed (h : Coherent view w)
    (hdoes : (Mutation.rename src dst).Does R view w.conn.remote) {conn : Conn ρ}
    (hres : w.resolveRename parent name newParent newName = .ok (srcParent, dstParent, src, dst))
    (hrename : w.conn.rename R src dst = (.ok (), conn))
    (hcare : w.RenameCareful view parent name newParent newName src dst)
    (hwf : ((((w.state.renamePath src dst).unstamp src).negate parent name
      conn.now).unnegate newParent newName).Wf) :
    Coherent view
      { w with
        conn := conn
        store :=
          ((w.store.rename src dst).invalidateChildren srcParent).invalidateChildren dstParent
        state := (((w.state.renamePath src dst).unstamp src).negate parent name
          conn.now).unnegate newParent newName } := by
  obtain ⟨hans, hconn⟩ := Conn.rename_eq hrename
  have hnow : conn.now = w.conn.now := by rw [hconn]; rfl
  obtain ⟨⟨node, hnode⟩, -, hfree, hview⟩ := hdoes hans
  by_cases hsame : src = dst
  · have hkey := hcare.same hsame
    subst hsame
    refine coherent_renamed_self h hnow ?_ hkey hwf
    rw [hconn]
    exact hview.trans (if_pos rfl)
  · have hview : view conn.remote = (view w.conn.remote).rename src.asStr dst.asStr := by
      rw [hconn]
      exact hview.trans (if_neg hsame)
    have hbelow := hfree hsame
    refine ⟨hwf, h.mode, ?_, ?_, ?_, ?_⟩
    · rw [hview]
      intro key e he
      simp only [Store.entry_invalidateChildren] at he
      exact entries_renamed h.entries hbelow hcare.entry key e he
    · rw [hview]
      exact sizes_renamed h hnow hbelow hcare
    · rw [hview]
      exact ((content_renamed h.content hbelow hcare.entry).invalidateChildren _).invalidateChildren
        _
    · rw [hview]
      exact negatives_renamed h hsame hnow hres hnode hbelow hcare _

end Rename

/-! ## Runs -/

/-- The calls after which the mount stays coherent. -/
def Careful (R : RemoteFilesystem ρ) (view : ρ → Tree) (w : World ρ) : Event ρ → Prop
  | .call (.rename parent name newParent newName) => ∀ srcParent dstParent src dst,
      w.resolveRename parent name newParent newName = .ok (srcParent, dstParent, src, dst) →
      (R.rename src dst w.conn.remote).1 = .ok () →
      w.RenameCareful view parent name newParent newName src dst
  | .call (.create parent name mode _) => ∀ parentPath child attributes,
      w.resolve parent name = .ok (parentPath, child) →
      (R.create child mode w.conn.remote).1 = .ok attributes →
      w.NegativesCleared parent name child
  | .call (.mkdir parent name mode) => ∀ parentPath child attributes,
      w.resolve parent name = .ok (parentPath, child) →
      (R.mkdir child mode w.conn.remote).1 = .ok attributes → w.NegativesCleared parent name child
  | .call (.read handle _ _) => ∀ file p, w.state.file handle = some file →
      w.state.path file.node = some p → p ≠ file.path →
      ∀ f m, view w.conn.remote file.path.asStr ≠ some (.file f m)
  | _ => True

/-- Nobody else changes the remote, and the session goes on. -/
def Exclusive : Event ρ → Prop
  | .call _ => True
  | .tick _ => True
  | .external _ => False
  | .restart _ => False

/-- What the remote makes of the call: a request that succeeds changes the tree at its own path
only, and a listing that is asked for describes what `stat` finds. -/
def Orderly (R : RemoteFilesystem ρ) (view : ρ → Tree) (w : World ρ) : Event ρ → Prop
  | .call (.readdir node) => ∀ path, w.state.path node = some path →
      (if w.metadataFresh path then w.readdirFromCache path else none) = none →
      ListsAsFound R view path w.conn.remote
  | .call call => w.config.readOnly = false → ∀ m, w.Asks call m → m.Does R view w.conn.remote
  | _ => True

/-- A request that fails changes nothing that the cache speaks for. -/
def FailsUnseen (R : RemoteFilesystem ρ) (view : ρ → Tree) (w : World ρ) : Event ρ → Prop
  | .call call => w.config.readOnly = false → ∀ m, w.Asks call m → ∀ error,
      (m.run R w.conn.remote).1 = .error error →
      w.Unseen (view w.conn.remote) (view (m.run R w.conn.remote).2)
  | _ => True

/-- Orderly calls over a remote that is orderly altogether. -/
lemma orderly_of_mutates (hA : Answers R view) (hM : Mutates R view) (w : World ρ) (e : Event ρ) :
    w.Orderly R view e := by
  cases e with
  | call call =>
      cases call with
      | readdir node => exact fun path _ _ => hA.lists path w.conn.remote
      | _ => exact fun _ m _ => hM.does m w.conn.remote
  | _ => trivial

lemma failsUnseen_of_mutates (hM : Mutates R view) (w : World ρ) (e : Event ρ) :
    w.FailsUnseen R view e := by
  cases e with
  | call call =>
      intro _ m _ error herror
      rw [hM.refuses m _ error herror]
      exact .refl w _
  | _ => trivial

/-- A request that fails leaves the mount coherent. -/
lemma coherent_failed (hA : StatsTree R view) {w : World ρ} {call : Call} {conn : Conn ρ}
    {st : State} (hfail : Failed R w call conn) (hst : Interns w.state.HasChild w.state st)
    (hwritable : call.Mutates → w.config.readOnly = false)
    (hunseen : w.FailsUnseen R view (.call call)) (h : Coherent view w) :
    Coherent view { w with conn := conn, state := st } := by
  cases hfail with
  | stat hstat =>
      obtain ⟨-, rfl⟩ := Conn.stat_eq hstat
      exact coherent_known h (hA.view_stat _ _) rfl hst
  | readDir hread =>
      obtain ⟨-, rfl⟩ := Conn.readDir_eq hread
      exact coherent_known h (hA.view_readDir _ _) rfl hst
  | asked hasks hanswer =>
      exact coherent_unseen h
        (hunseen (hwritable (mutates_of_asks hasks)) _ hasks _ hanswer) rfl hst

/-- `getattr` does not change the tree. -/
lemma view_getattr (hA : StatsTree R view) {w w' : World ρ} {n : NodeId}
    (h : Outcome R w (.getattr n) w') : view w'.conn.remote = view w.conn.remote := by
  cases h with
  | known _ => rfl
  | failed hfail _ =>
      cases hfail with
      | stat hstat => rw [(Conn.stat_eq hstat).2]; exact hA.view_stat _ _
      | readDir hread => rw [(Conn.readDir_eq hread).2]; exact hA.view_readDir _ _
      | asked hasks _ => exact hasks.elim
  | getattrFound _ _ _ hstat => exact (stat_found hA hstat).1
  | getattrMissing _ _ hstat => exact (stat_missing hA hstat).1

lemma coherent_outcome (hA : StatsTree R view) (hsize : FilesFit view) {w w' : World ρ}
    {call : Call} (hout : Outcome R w call w')
    (hwritable : call.Mutates → w.config.readOnly = false) (hord : w.Orderly R view (.call call))
    (hunseen : w.FailsUnseen R view (.call call)) (hcare : w.Careful R view (.call call))
    (h : Coherent view w) : Coherent view w' := by
  have hwf := wf_outcome hout h.wf
  have hnow := (grows_outcome hout).1.now
  induction hout with
  | known hst => exact coherent_known h rfl rfl hst
  | failed hfail hst => exact coherent_failed hA hfail hst hwritable hunseen h
  | lookupFound _ _ _ _ hstat => exact coherent_lookupFound hA h hstat hwf
  | lookupMissing _ hchild hstat => exact coherent_lookupMissing hA h hchild hstat hwf
  | getattrFound _ _ _ hstat => exact coherent_getattrFound hA h hstat
  | getattrMissing _ _ hstat => exact coherent_getattrMissing hA h hstat
  | listed _ hpath hcache hread hst =>
      refine coherent_listed hA h (hord _ hpath hcache) hread (stampedBy_of_eq hst) hwf
        (fun q t hq => ?_) (fun _ => rfl) (fun _ => rfl)
      rcases validatedAt_stamp_cases hq with ⟨hq, -⟩ | hold
      · exact .inl hq
      · exact .inr hold
  | listedPartly _ hpath hcache hread hst =>
      exact coherent_listed hA h (hord _ hpath hcache) hread (stampedBy_of_eq hst) hwf
        (fun _ _ => .inr) (fun _ => rfl) (fun _ => rfl)
  | opened _ =>
      exact ⟨hwf, h.mode, h.entries, h.sizes, h.content, h.negatives⟩
  | truncated htruncate hpath hset =>
      obtain ⟨hans, hconn⟩ := Conn.setattr_eq hset
      obtain ⟨node, node', hnode, hto, -, hview⟩ :=
        hord (hwritable htruncate) _ ⟨htruncate, _, hpath, rfl⟩ _ hans
      exact coherent_touched h hnow hnode (SetTo.kind_eq hto) (by rw [hconn]; exact hview) hwf
        (fun _ => rfl) (fun _ => rfl) (fun _ => rfl)
  | readThrough _ hmode =>
      rw [h.mode] at hmode
      cases hmode
  | readRejected _ _ hattr ih =>
      exact ih False.elim (fun _ _ => False.elim) (fun _ _ => False.elim) trivial hwf hnow
  | readContent hfile _ hattr hok ih =>
      have hmid := ih False.elim (fun _ _ => False.elim) (fun _ _ => False.elim) trivial
        (wf_outcome hattr h.wf) (grows_outcome hattr).1.now
      exact coherent_readContent hA hsize h hmid hok (view_getattr hA hattr)
        (fun p hp => hcare _ p hfile hp) _ _
  | wrote hfile hwrite =>
      obtain ⟨hans, hconn⟩ := Conn.write_eq hwrite
      obtain ⟨f, m, f', m', hnode, hview⟩ := hord (hwritable trivial) _ ⟨_, hfile, rfl⟩ _ hans
      have hkind : (RemoteNode.file f' m').kind = (RemoteNode.file f m).kind := rfl
      exact coherent_touched h hnow hnode hkind (by rw [hconn]; exact hview) hwf
        (fun _ => rfl) (fun _ => rfl) (fun _ => rfl)
  | released => exact ⟨hwf, h.mode, h.entries, h.sizes, h.content, h.negatives⟩
  | @created parent name _ _ _ child _ conn hres hcreate node st hst =>
      obtain ⟨hans, hconn⟩ := Conn.create_eq hcreate
      obtain ⟨f, m, hnone, hdesc, hview⟩ :=
        hord (hwritable trivial) _ ⟨_, childPath_of_resolve hres, rfl⟩ _ hans
      have hmade : w.MadeIn parent name child conn.now st := by
        have hintern := madeIn_intern w parent name child conn.now
        rwa [hst] at hintern
      exact coherent_made h hnow hnone hdesc (by rw [hconn]; exact hview)
        (hcare _ _ _ hres hans) hwf (hmade.openHandle _ _)
  | @madeDir parent name _ _ child _ conn hres hmkdir =>
      obtain ⟨hans, hconn⟩ := Conn.mkdir_eq hmkdir
      obtain ⟨hnone, hdesc, hview⟩ :=
        hord (hwritable trivial) _ ⟨_, childPath_of_resolve hres, rfl⟩ _ hans
      exact coherent_made h hnow hnone hdesc (by rw [hconn]; exact hview)
        (hcare _ _ _ hres hans) hwf (madeIn_intern w parent name child conn.now)
  | unlinked hres hunlink =>
      obtain ⟨hans, hconn⟩ := Conn.unlink_eq hunlink
      obtain ⟨f, m, -, hview⟩ :=
        hord (hwritable trivial) _ ⟨_, childPath_of_resolve hres, rfl⟩ hans
      exact coherent_forgotten h hnow hres (by rw [hconn]; exact hview)
  | removedDir hres hrmdir =>
      obtain ⟨hans, hconn⟩ := Conn.rmdir_eq hrmdir
      obtain ⟨-, -, hview⟩ := hord (hwritable trivial) _ ⟨_, childPath_of_resolve hres, rfl⟩ hans
      exact coherent_forgotten h hnow hres (by rw [hconn]; exact hview)
  | renamed hres hrename =>
      obtain ⟨hsrc, hdst⟩ := childPath_of_resolveRename hres
      exact coherent_renamed h (hord (hwritable trivial) _ ⟨_, _, hsrc, hdst, rfl⟩) hres hrename
        (hcare _ _ _ _ hres (Conn.rename_eq hrename).1) hwf
  | setattrDone _ hpath hset =>
      exact coherent_setattrDone h (hord (hwritable trivial) _ ⟨_, hpath, rfl⟩) hset

/-- The condition on the steps of a run. -/
structure Sheltered (R : RemoteFilesystem ρ) (view : ρ → Tree) (w : World ρ) (e : Event ρ) :
    Prop where
  exclusive : Exclusive e
  orderly : w.Orderly R view e
  failsUnseen : w.FailsUnseen R view e
  careful : w.Careful R view e

lemma coherent_step (hA : StatsTree R view) (hsize : FilesFit view) (w : World ρ) (e : Event ρ)
    (hcond : w.Sheltered R view e) (h : Coherent view w) : Coherent view (w.step R e) := by
  cases e with
  | call call =>
      by_cases hdenied : call.Mutates ∧ w.config.readOnly = true
      · show Coherent view (w.exec R call)
        rw [exec_of_readOnly R hdenied.2 hdenied.1]
        exact h
      · have hwritable : call.Mutates → w.config.readOnly = false := fun hmut =>
          Bool.eq_false_iff.mpr fun hro => hdenied ⟨hmut, hro⟩
        exact coherent_outcome hA hsize (outcome_exec R w call) hwritable hcond.orderly
          hcond.failsUnseen hcond.careful h
  | tick d =>
      refine ⟨h.wf, h.mode, h.entries, ?_, h.content, ?_⟩
      · intro p time e f m hval hfresh
        simp only [step] at hfresh
        exact h.sizes p time e f m hval (by omega)
      · intro n x time p child hneg hfresh
        simp only [step] at hfresh
        exact h.negatives n x time p child hneg (by omega)
  | external remote => exact hcond.exclusive.elim
  | restart config => exact hcond.exclusive.elim

lemma coherent_new {config : Config} (hmode : config.cacheMode = .onDemand) (conn : Conn ρ) :
    Coherent view (World.new config Disk.empty conn) where
  wf := State.wf_new config.root
  mode := hmode
  entries := fun key e he => by cases he
  sizes := fun p time e f m hval => by cases hval
  content := Store.sound_new_empty config.cacheChunkSize
  negatives := fun n x time p child hneg => by cases hneg

/-! ## Transparency -/

/-- Two reports of the same file: of one kind, and of one size where the size means something. -/
def SameFile (a b : FileAttributes) : Prop := a.kind = b.kind ∧ (a.kind = .file → a.size = b.size)

/-- What the mount answers is what the remote would: `lookup` and `getattr` report the kind and
the size that `stat` gives now, `lookup` finds nothing exactly when `stat` does, and a read
through a handle at the path of its node returns the bytes of the file that is there. -/
def Transparent (R : RemoteFilesystem ρ) (view : ρ → Tree) (w : World ρ) : Event ρ → Prop
  | .call (.lookup parent name) => ∀ child, w.childPath parent name = .ok child →
      (∀ metadata, (w.lookup R parent name).1 = .ok metadata →
        ∃ attributes, (R.stat child w.conn.remote).1 = .ok attributes ∧
          SameFile metadata.attributes attributes) ∧
      ((w.lookup R parent name).1 = .error .notFound ↔
        (R.stat child w.conn.remote).1 = .error .notFound)
  | .call (.getattr node) => ∀ metadata, (w.getattr R node).1 = .ok metadata →
      ∃ path attributes, w.state.path node = some path ∧
        (R.stat path w.conn.remote).1 = .ok attributes ∧ SameFile metadata.attributes attributes
  | .call (.read handle offset size) => ∀ file data, w.state.file handle = some file →
      w.state.path file.node = some file.path → (w.read R handle offset size).1 = .ok data →
      ∃ node, view w.conn.remote file.path.asStr = some node ∧
        ∀ f m, node = .file f m → data = Store.requested f offset size
  | _ => True

lemma Agrees.sameFile {a b : FileAttributes} {node : RemoteNode} (ha : Agrees a node)
    (hb : Describes b node) : SameFile a b := by
  refine ⟨ha.1.trans hb.kind_eq.symm, fun hkind => ?_⟩
  cases node with
  | dir =>
      rw [ha.1] at hkind
      cases hkind
  | file f m => exact UInt64.toNat_inj.mp ((ha.2 f m rfl).trans hb.2.1.symm)

/-- A node that agrees with some attributes is described by `stat` in the same way. -/
lemma stat_sameFile (hA : StatsTree R view) {p : RemotePath} {r : ρ} {a : FileAttributes}
    (h : ∃ node, view r p.asStr = some node ∧ Agrees a node) :
    ∃ attributes, (R.stat p r).1 = .ok attributes ∧ SameFile a attributes := by
  obtain ⟨node, hnode, hagree⟩ := h
  obtain ⟨b, hb, hdesc⟩ := hA.stat_some p r node hnode
  exact ⟨b, hb, hagree.sameFile hdesc⟩

lemma Coherent.lookup_transparent (hA : StatsTree R view) {w : World ρ} (h : Coherent view w)
    (parent : NodeId) (name : Str) : w.Transparent R view (.call (.lookup parent name)) := by
  intro child hchild
  rcases lookup_answer (R := R) h.online hchild with
    ⟨hneg, heq⟩ | ⟨attributes, -, hfresh, heq⟩ | ⟨-, -, heq⟩
  · -- a fresh negative entry: there is nothing at the path
    obtain ⟨t, ht, hage⟩ := (freshNegative_iff h.online).mp hneg
    obtain ⟨p, hp, hjoin⟩ := childPath_ok.mp hchild
    have hnone := h.negatives parent name t p child ht hage hp hjoin
    rw [heq, hA.stat_none child _ hnone]
    exact ⟨fun metadata hok => (by cases hok), by simp⟩
  · obtain ⟨b, hb, hsame⟩ := stat_sameFile hA (h.fresh_agrees hfresh)
    rw [heq, hb]
    refine ⟨fun metadata hok => ⟨b, rfl, ?_⟩, by simp [answerAs]⟩
    cases hok
    exact hsame
  · have hquote := lookupRemote_quotes w parent name child (stat_reachable hA child _)
    rw [heq, ← hquote]
    cases hans : (w.lookupRemote R parent name child).1 with
    | ok metadata =>
        refine ⟨fun md hok => ⟨metadata.attributes, rfl, ?_⟩, by simp [Except.map]⟩
        cases hok
        exact ⟨rfl, fun _ => rfl⟩
    | error e => exact ⟨fun md hok => (by cases hok), by simp [Except.map]⟩

lemma Coherent.getattr_transparent (hA : StatsTree R view) {w : World ρ} (h : Coherent view w)
    (node : NodeId) : w.Transparent R view (.call (.getattr node)) := by
  intro metadata hok
  cases hp : w.state.pathOf node with
  | error e => simp [getattr, hp] at hok
  | ok path =>
      have hp := State.pathOf_ok.mp hp
      have hagree := h.getattr_agrees hA hp
        (show w.getattr R node = (.ok metadata, (w.getattr R node).2) from Prod.ext hok rfl)
      obtain ⟨b, hb, hsame⟩ := stat_sameFile hA hagree
      exact ⟨path, b, hp, hb, hsame⟩

lemma Coherent.read_transparent (hA : StatsTree R view) (hsize : FilesFit view) {w : World ρ}
    (h : Coherent view w) (handle : FileHandle) (offset : UInt64) (size : UInt32) :
    w.Transparent R view (.call (.read handle offset size)) := by
  intro file data hfile hpath hok
  simp only [read, hfile, h.mode, readContent] at hok
  cases hget : w.getattr R file.node with
  | mk answer w' =>
      rw [hget] at hok
      cases answer with
      | error e => cases hok
      | ok metadata =>
          obtain ⟨node, hnode, hagree⟩ := h.getattr_agrees hA hpath hget
          refine ⟨node, hnode, ?_⟩
          rintro f m rfl
          have hout := outcome_getattr R w file.node
          rw [hget] at hout
          have hmid := coherent_outcome hA hsize hout False.elim (fun _ _ => False.elim)
            (fun _ _ => False.elim) trivial h
          have hf : view w'.conn.remote file.path.asStr = some (.file f m) := by
            rw [view_getattr hA hout]
            exact hnode
          obtain ⟨s', c', heq, -⟩ :=
            hmid.read_exact hA hf (hsize _ _ _ _ hf) (hagree.2 f m rfl) offset size
          simp only [heq, Except.ok.injEq] at hok
          exact hok.symm

end World

end CacheShfs
