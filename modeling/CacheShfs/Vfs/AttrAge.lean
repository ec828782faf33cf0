import CacheShfs.Vfs.ListingAge

/-!
# The age of served attributes

How old the attributes can be that `lookup` and `getattr` serve without asking the remote.  The
time that vouches for them (`validated`) and the attributes themselves (the store entry) are
moved, overwritten and removed by different calls.  Three of these leave a time with attributes
that are older than it or belong to another file:

* `readdir` confirms the directory it lists, whose own attributes it has not asked for;
* `rename` moves the entry of its source under the time of its target;
* a read through a handle whose node has been renamed records an entry at the handle's path
  with the attributes of the node's path.

In every run without these the attributes of a confirmed path were reported for this path at or
after the time it was confirmed (`attrs_age_bounded`).
-/

namespace CacheShfs

open Machine

/-- A call to the remote that reports attributes of `path`. -/
def RemoteCall.Reports (path : RemotePath) (attributes : FileAttributes) : RemoteCall → Prop
  | .stat q (.ok a) | .create q _ (.ok a) | .mkdir q _ (.ok a) | .setattr q _ (.ok a) =>
      q = path ∧ a = attributes
  | .readDir q (.ok entries) => ∃ e ∈ entries, ValidComponent e.name ∧
      path.asStr = childKey q.asStr e.name ∧ e.attributes = attributes
  | _ => False

namespace World

variable {ρ : Type} {R : RemoteFilesystem ρ}

/-- At time `t` the remote reported these attributes for `path`. -/
def Reported (c : Conn ρ) (t : ℕ) (path : RemotePath) (attributes : FileAttributes) : Prop :=
  ∃ call, (t, call) ∈ c.log ∧ call.Reports path attributes

lemma Reported.grows {c c' : Conn ρ} {t : ℕ} {path : RemotePath} {attributes : FileAttributes}
    (h : Reported c t path attributes) (hg : Grows c c') : Reported c' t path attributes := by
  obtain ⟨call, hmem, hreports⟩ := h
  exact ⟨call, hg.mem hmem, hreports⟩

lemma reported_record (c : Conn ρ) {call : RemoteCall} (r : ρ) {path : RemotePath}
    {attributes : FileAttributes} (h : call.Reports path attributes) :
    Reported (c.record call r) c.now path attributes :=
  ⟨call, List.mem_cons_self, h⟩

/-- The attributes of a confirmed path were reported for it at or after the time it was
confirmed. -/
def AttrsVouched (w : World ρ) : Prop :=
  ∀ p t e, w.state.validatedAt p = some t → w.store.entry p.asStr = some e →
    ∃ t', t ≤ t' ∧ Reported w.conn t' p e.attrs.toAttributes

/-- The rule by which every call is handled: the attributes of a confirmed path were there
before, under the same time, or are accounted for in the new history. -/
lemma AttrsVouched.mono {w w' : World ρ} (h : AttrsVouched w) (hg : Grows w.conn w'.conn)
    (hcases : ∀ p t e, w'.state.validatedAt p = some t → w'.store.entry p.asStr = some e →
      (w.state.validatedAt p = some t ∧
        ∃ e₀, w.store.entry p.asStr = some e₀ ∧ e₀.attrs = e.attrs) ∨
      ∃ t', t ≤ t' ∧ Reported w'.conn t' p e.attrs.toAttributes) :
    AttrsVouched w' := by
  intro p t e hval hentry
  rcases hcases p t e hval hentry with ⟨hval₀, e₀, hentry₀, hattrs⟩ | hnew
  · obtain ⟨t', hle, hrep⟩ := h p t e₀ hval₀ hentry₀
    rw [hattrs] at hrep
    exact ⟨t', hle, hrep.grows hg⟩
  · exact hnew

/-- A call that confirms no path and stores no attributes. -/
lemma AttrsVouched.keep {w w' : World ρ} (h : AttrsVouched w) (hg : Grows w.conn w'.conn)
    (hval : ∀ q t, w'.state.validatedAt q = some t → w.state.validatedAt q = some t)
    (hentry : ∀ key e, w'.store.entry key = some e →
      ∃ e₀, w.store.entry key = some e₀ ∧ e₀.attrs = e.attrs) : AttrsVouched w' :=
  h.mono hg fun p t e hv he => .inl ⟨hval p t hv, hentry _ e he⟩

/-- A call that stores what the remote reports for a path and confirms it. -/
lemma AttrsVouched.confirm {w w' : World ρ} (h : AttrsVouched w) (hpast : StampsPast w)
    {p : RemotePath} {attributes : FileAttributes} {call : RemoteCall} {r : ρ}
    (hconn : w'.conn = w.conn.record call r) (hrep : call.Reports p attributes)
    (hval : ∀ q, w'.state.validatedAt q = (w.state.stamp p w.conn.now).validatedAt q)
    (hentry : ∀ key, w'.store.entry key = (w.store.putAttrs p attributes).entry key) :
    AttrsVouched w' := by
  refine h.mono (hconn ▸ grows_record _ _ _) fun q t e hq he => ?_
  rw [hval] at hq
  rw [hentry, Store.entry_putAttrs] at he
  have hle : t ≤ w.conn.now := by
    rcases validatedAt_stamp_cases hq with ⟨-, rfl⟩ | hold
    · exact le_refl _
    · exact hpast q t hold
  split at he
  · next hkey =>
      obtain rfl := RemotePath.ext hkey
      cases he
      right
      rw [hconn]
      exact ⟨w.conn.now, hle, reported_record _ r (by simpa using hrep)⟩
  · next hkey =>
      rcases validatedAt_stamp_cases hq with ⟨rfl, -⟩ | hold
      · exact absurd rfl hkey
      · exact .inl ⟨hold, e, he, rfl⟩

lemma entry_of_remove {s : Store} {path : RemotePath} {key : Str} {e : Entry}
    (h : (s.remove path).entry key = some e) :
    ∃ e₀, s.entry key = some e₀ ∧ e₀.attrs = e.attrs := by
  rw [Store.entry_remove] at h
  split at h
  · cases h
  · exact ⟨e, h, rfl⟩

lemma entry_of_invalidateContent {s : Store} {path : RemotePath} {key : Str} {e : Entry}
    (h : (s.invalidateContent path).entry key = some e) :
    ∃ e₀, s.entry key = some e₀ ∧ e₀.attrs = e.attrs := by
  rw [Store.entry_invalidateContent] at h
  split at h
  · next hkey =>
      obtain ⟨e₀, he₀, rfl⟩ := Option.map_eq_some_iff.mp h
      exact ⟨e₀, hkey ▸ he₀, rfl⟩
  · exact ⟨e, h, rfl⟩

lemma entry_rename_cases {s : Store} {src dst : RemotePath} {key : Str} {e : Entry}
    (h : (s.rename src dst).entry key = some e) :
    (key = dst.asStr ∧ s.entry src.asStr = some e) ∨ s.entry key = some e := by
  rw [Store.entry_rename, Option.ite_none_left_eq_some] at h
  obtain ⟨-, h⟩ := h
  split at h
  · next hkey =>
      cases hsrc : s.entry src.asStr with
      | some e' =>
          rw [hsrc] at h
          exact .inl ⟨hkey, h⟩
      | none =>
          rw [hsrc] at h
          exact .inr (hkey ▸ h)
  · split at h
    · cases h
    · exact .inr h

/-- A listing stores what it reports. -/
lemma AttrsVouched.list {w : World ρ} (h : AttrsVouched w) (hpast : StampsPast w)
    {path : RemotePath} {entries : List RemoteDirectoryEntry} {conn : Conn ρ}
    (hread : w.conn.readDir R path = (.ok entries, conn)) {st st' : State}
    (hst : StampedBy path conn.now (realChildren entries) w.state st)
    (hval : ∀ q t, st'.validatedAt q = some t →
      (q = path ∧ t = conn.now ∧ (w.store.entry path.asStr = none ∨
        w.state.validatedAt path = some conn.now)) ∨ st.validatedAt q = some t) :
    AttrsVouched
      { w with
        conn := conn
        store := w.store.recordListing path (realChildren entries)
        state := st' } := by
  obtain ⟨-, rfl⟩ := Conn.readDir_eq hread
  refine h.mono (grows_record _ _ _) fun q t e hq he => ?_
  have hle : t ≤ w.conn.now := by
    rcases hval q t hq with ⟨-, rfl, -⟩ | hq
    · exact le_refl _
    · rcases hst.validatedAt q with ⟨hnow, -⟩ | hkeep
      · exact (Option.some.inj (hnow.symm.trans hq)).ge
      · exact hpast q t (hkeep ▸ hq)
  rcases Store.entry_recordListing path (realChildren entries) w.store q.asStr with
    ⟨name, attrs, content, hmem, hvalid, hkey, hentry⟩ | ⟨hno, hentry⟩
  · rw [hentry] at he
    cases he
    -- the entry is the one the listing has just reported
    obtain ⟨e, hmem', heq⟩ := List.mem_map.mp hmem
    cases heq
    exact .inr ⟨w.conn.now, hle, reported_record _ _
      ⟨e, List.mem_of_mem_filter hmem', hvalid, hkey, by simp⟩⟩
  · rw [hentry] at he
    rcases hval q t hq with ⟨rfl, rfl, hnone | hold⟩ | hq
    · rw [hnone] at he
      cases he
    · exact .inl ⟨hold, e, he, rfl⟩
    · rcases hst.validatedAt q with ⟨hnow, c, hc, hchild⟩ | hkeep
      · obtain ⟨hmem, hvalid⟩ := mem_stampable hc
        exact absurd hchild (hno c.1 c.2 hmem hvalid)
      · exact .inl ⟨hkeep ▸ hq, e, he, rfl⟩

/-! ## The attributes `getattr` answers with -/

/-- `getattr` touches its own path only. -/
lemma getattr_frame {w w' : World ρ} {node : NodeId} {p : RemotePath}
    (h : Outcome R w (.getattr node) w') (hp : w.state.path node = some p) {q : RemotePath}
    (hq : q ≠ p) :
    w'.state.validatedAt q = w.state.validatedAt q ∧
      w'.store.entry q.asStr = w.store.entry q.asStr := by
  have hkey : q.asStr ≠ p.asStr := fun heq => hq (RemotePath.ext heq)
  cases h with
  | known hst => exact ⟨hst.validatedAt q, rfl⟩
  | failed _ hst => exact ⟨hst.validatedAt q, rfl⟩
  | getattrFound _ hpath _ _ =>
      rw [hp] at hpath
      cases hpath
      exact ⟨by rw [State.validatedAt_stamp, if_neg hq],
        by rw [Store.entry_putAttrs, if_neg hkey]⟩
  | getattrMissing _ hpath _ =>
      rw [hp] at hpath
      cases hpath
      exact ⟨rfl, by rw [Store.entry_remove, if_neg hkey]⟩

lemma path_of_getattr {w : World ρ} {node : NodeId} {metadata : FileMetadata}
    (hok : (w.getattr R node).1 = .ok metadata) : ∃ p, w.state.path node = some p := by
  cases hpath : w.state.pathOf node with
  | ok p => exact ⟨p, State.pathOf_ok.mp hpath⟩
  | error e => simp [getattr, hpath] at hok

/-- Where `getattr` answers, the path has an entry with these attributes afterwards. -/
lemma getattr_ok_entry {w w' : World ρ} {node : NodeId} {p : RemotePath}
    {metadata : FileMetadata} (hp : w.state.path node = some p)
    (h : w.getattr R node = (.ok metadata, w')) :
    w'.store.getAttrs p = some metadata.attributes := by
  unfold getattr at h
  rw [State.pathOf_ok.mpr hp] at h
  simp only at h
  split at h
  · next attributes hfresh =>
      cases h
      exact (freshAttrs_eq_some.mp hfresh).2
  · split at h
    · cases h
    · unfold getattrRemote at h
      split at h
      · cases h
        exact Store.getAttrs_putAttrs_self _ _ _
      · cases h
      · split at h
        · next attributes hattrs =>
            split at h
            · cases h
              exact hattrs
            · cases h
        · cases h

/-! ## Answers with and without the remote -/

/-- A `stat` is recorded with its answer. -/
lemma stat_conn {c c' : Conn ρ} {p : RemotePath} {a : Except Error FileAttributes}
    (h : c.stat R p = (a, c')) :
    c' = c.record (.stat p (R.stat p c.remote).1) (R.stat p c.remote).2 := by
  obtain ⟨hans, hconn⟩ := Conn.stat_eq h
  rw [hans]
  exact hconn

lemma lookupRemote_conn (w : World ρ) (parent : NodeId) (name : Str) (child : RemotePath) :
    (w.lookupRemote R parent name child).2.conn =
      w.conn.record (.stat child (R.stat child w.conn.remote).1)
        (R.stat child w.conn.remote).2 := by
  unfold lookupRemote
  split
  · next hstat => exact stat_conn hstat
  · next hstat => exact stat_conn hstat
  · next hstat =>
      split
      · split <;> exact stat_conn hstat
      · exact stat_conn hstat

lemma getattrRemote_conn (w : World ρ) (node : NodeId) (path : RemotePath) :
    (w.getattrRemote R node path).2.conn =
      w.conn.record (.stat path (R.stat path w.conn.remote).1) (R.stat path w.conn.remote).2 := by
  unfold getattrRemote
  split
  · next hstat => exact stat_conn hstat
  · next hstat => exact stat_conn hstat
  · next hstat =>
      split
      · split <;> exact stat_conn hstat
      · exact stat_conn hstat

/-- The attributes of an answer that asks the remote by a `stat`. -/
def statOrCached (R : RemoteFilesystem ρ) (w : World ρ) (path : RemotePath) :
    Except Error FileAttributes :=
  match (R.stat path w.conn.remote).1 with
  | .error (.unavailable m) =>
      ((w.store.getAttrs path).map Except.ok).getD (.error (.unavailable m))
  | answer => answer

lemma lookupRemote_attributes (w : World ρ) (parent : NodeId) (name : Str) (path : RemotePath) :
    (w.lookupRemote R parent name path).1.map FileMetadata.attributes =
      w.statOrCached R path := by
  have hread : w.conn.stat R path = ((R.stat path w.conn.remote).1, (w.conn.stat R path).2) := rfl
  unfold lookupRemote statOrCached
  rw [hread]
  cases (R.stat path w.conn.remote).1 with
  | ok a => rfl
  | error e => cases e <;> cases w.store.getAttrs path <;> rfl

lemma getattrRemote_attributes (w : World ρ) (node : NodeId) (path : RemotePath) :
    (w.getattrRemote R node path).1.map FileMetadata.attributes = w.statOrCached R path := by
  have hread : w.conn.stat R path = ((R.stat path w.conn.remote).1, (w.conn.stat R path).2) := rfl
  unfold getattrRemote statOrCached
  rw [hread]
  cases (R.stat path w.conn.remote).1 with
  | ok a => rfl
  | error e => cases e <;> cases w.store.getAttrs path <;> rfl

lemma statOrCached_reachable {w : World ρ} {path : RemotePath}
    (hreach : ∀ m, (R.stat path w.conn.remote).1 ≠ .error (.unavailable m)) :
    w.statOrCached R path = (R.stat path w.conn.remote).1 := by
  unfold statOrCached
  split
  · next m hstat => exact absurd hstat (hreach m)
  · rfl

/-- A reachable remote is quoted by `lookup` as it answers. -/
lemma lookupRemote_quotes (w : World ρ) (parent : NodeId) (name : Str) (child : RemotePath)
    (hreach : ∀ m, (R.stat child w.conn.remote).1 ≠ .error (.unavailable m)) :
    (w.lookupRemote R parent name child).1.map FileMetadata.attributes =
      (R.stat child w.conn.remote).1 := by
  rw [lookupRemote_attributes, statOrCached_reachable hreach]

/-- A reachable remote is quoted by `getattr` as it answers. -/
lemma getattrRemote_quotes (w : World ρ) (node : NodeId) (path : RemotePath)
    (hreach : ∀ m, (R.stat path w.conn.remote).1 ≠ .error (.unavailable m)) :
    (w.getattrRemote R node path).1.map FileMetadata.attributes =
      (R.stat path w.conn.remote).1 := by
  rw [getattrRemote_attributes, statOrCached_reachable hreach]

/-- **What `lookup` answers**, online: not found by a recent negative answer, fresh attributes,
or what the remote part answers. -/
lemma lookup_answer {w : World ρ} (honline : w.offline = false) {parent : NodeId} {name : Str}
    {child : RemotePath} (hchild : w.childPath parent name = .ok child) :
    (w.freshNegative parent name = true ∧ w.lookup R parent name = (.error .notFound, w)) ∨
      (∃ attributes, w.freshNegative parent name = false ∧
        w.freshAttrs child = some attributes ∧
        w.lookup R parent name = w.answerAs child attributes) ∨
      (w.freshNegative parent name = false ∧ w.freshAttrs child = none ∧
        w.lookup R parent name = w.lookupRemote R parent name child) := by
  unfold lookup
  rw [hchild]
  simp only [honline, Bool.false_eq_true, if_false]
  cases hneg : w.freshNegative parent name with
  | true => exact .inl ⟨rfl, rfl⟩
  | false =>
      cases hfresh : w.freshAttrs child with
      | some attributes => exact .inr (.inl ⟨attributes, rfl, rfl, rfl⟩)
      | none => exact .inr (.inr ⟨rfl, rfl, rfl⟩)

/-- **What `getattr` answers**, online. -/
lemma getattr_answer {w : World ρ} (honline : w.offline = false) {node : NodeId}
    {path : RemotePath} (hpath : w.state.path node = some path) :
    (∃ attributes, w.freshAttrs path = some attributes ∧
        w.getattr R node = (.ok ⟨node, attributes⟩, w)) ∨
      (w.freshAttrs path = none ∧ w.getattr R node = w.getattrRemote R node path) := by
  unfold getattr
  rw [State.pathOf_ok.mpr hpath]
  simp only [honline, Bool.false_eq_true, if_false]
  cases hfresh : w.freshAttrs path with
  | some attributes => exact .inl ⟨attributes, rfl, rfl⟩
  | none => exact .inr ⟨rfl, rfl⟩

/-! ## Which calls leave a time with the wrong attributes -/

/-- A listing confirms no directory with older attributes, a rename moves no attributes under a
time of its target, and a read through a handle away from its node records no entry under a
time. -/
def AttrsClear (R : RemoteFilesystem ρ) (w : World ρ) : Event ρ → Prop
  | .call (.readdir node) => ∀ path entries, w.state.path node = some path →
      (if w.metadataFresh path then w.readdirFromCache path else none) = none →
      (R.readDir path w.conn.remote).1 = .ok entries →
      (∀ c ∈ realChildren entries, ValidComponent c.1) →
      w.store.entry path.asStr = none ∨ w.state.validatedAt path = some w.conn.now
  | .call (.rename parent name newParent newName) => ∀ srcParent dstParent src dst,
      w.resolveRename parent name newParent newName = .ok (srcParent, dstParent, src, dst) →
      (R.rename src dst w.conn.remote).1 = .ok () → src ≠ dst →
      w.store.entry src.asStr ≠ none → w.state.validatedAt dst = none
  | .call (.read handle _ _) => w.config.cacheMode ≠ .remote →
      ∀ file p, w.state.file handle = some file → w.state.path file.node = some p →
        p ≠ file.path → w.store.entry file.path.asStr = none →
        w.state.validatedAt file.path = none
  | _ => True

/-- A read of the store keeps the attributes accounted for. -/
lemma AttrsVouched.readContent {w w' : World ρ} {file : OpenFile} {metadata : FileMetadata}
    (hattr : Outcome R w (.getattr file.node) w') (hok : w.getattr R file.node = (.ok metadata, w'))
    (hcond : ∀ p, w.state.path file.node = some p → p ≠ file.path →
      w.store.entry file.path.asStr = none → w.state.validatedAt file.path = none)
    (hv : AttrsVouched w') (offset : UInt64) (size : UInt32) :
    AttrsVouched
      { w' with
        store := (w'.store.read R file.path metadata.attributes offset size w'.conn).2.1
        conn := (w'.store.read R file.path metadata.attributes offset size w'.conn).2.2 } := by
  obtain ⟨hframe, hreads⟩ :=
    Store.read_frame (R := R) file.path metadata.attributes offset size w'.store w'.conn
  refine hv.mono (grows_onlyReads hreads) fun q t e hq he => .inl ⟨hq, ?_⟩
  rcases hframe.attrs_cases he with hold | ⟨hkey, hnone, -⟩
  · exact hold
  · -- only a handle away from its node finds no entry, and then there is no time either
    exfalso
    obtain rfl := RemotePath.ext hkey
    obtain ⟨p, hp⟩ := path_of_getattr (congrArg Prod.fst hok)
    by_cases hsame : p = file.path
    · have hsome := getattr_ok_entry hp hok
      rw [hsame, Store.getAttrs_eq, hnone] at hsome
      cases hsome
    · obtain ⟨hval, hentry⟩ := getattr_frame hattr hp (Ne.symm hsame)
      rw [hcond p hp hsame (hentry ▸ hnone)] at hval
      rw [hval] at hq
      cases hq

lemma attrsVouched_outcome {w w' : World ρ} {call : Call} (h : Outcome R w call w')
    (hpast : StampsPast w) (hcond : w.AttrsClear R (.call call)) (hv : AttrsVouched w) :
    AttrsVouched w' := by
  have hg := (grows_outcome h).1
  have hsame : ∀ key e, w.store.entry key = some e →
      ∃ e₀, w.store.entry key = some e₀ ∧ e₀.attrs = e.attrs := fun key e he => ⟨e, he, rfl⟩
  induction h with
  | known hst => exact hv.keep hg (fun q t => by simp [hst.validatedAt]) hsame
  | failed _ hst => exact hv.keep hg (fun q t => by simp [hst.validatedAt]) hsame
  | lookupFound _ _ _ _ hstat =>
      obtain ⟨-, rfl⟩ := Conn.stat_eq hstat
      exact hv.confirm hpast rfl ⟨rfl, rfl⟩ (fun q => by simp) (fun _ => rfl)
  | lookupMissing _ _ _ =>
      exact hv.keep hg (fun _ _ => by simp) (fun _ _ => entry_of_remove)
  | getattrFound _ _ _ hstat =>
      obtain ⟨-, rfl⟩ := Conn.stat_eq hstat
      exact hv.confirm hpast rfl ⟨rfl, rfl⟩ (fun q => rfl) (fun _ => rfl)
  | getattrMissing _ _ _ =>
      exact hv.keep hg (fun _ _ => id) (fun _ _ => entry_of_remove)
  | listed _ hpath hcache hread hst =>
      refine hv.list hpast hread (stampedBy_of_eq hst) fun q t hq => ?_
      rcases validatedAt_stamp_cases hq with ⟨rfl, rfl⟩ | hold
      · have hclear := hcond _ _ hpath hcache (Conn.readDir_eq hread).1 (stampChildren_ok hst).2
        rw [hg.now]
        exact .inl ⟨rfl, rfl, hclear⟩
      · exact .inr hold
  | listedPartly _ _ _ hread hst =>
      exact hv.list hpast hread (stampedBy_of_eq hst) fun q t => .inr
  | opened _ => exact hv.keep hg (fun _ _ => by simp) hsame
  | truncated _ _ _ =>
      exact hv.keep hg (fun _ _ h => validatedAt_of_unstamp (by simpa using h))
        (fun _ _ => entry_of_invalidateContent)
  | readThrough _ _ => exact hv.keep hg (fun _ _ => id) hsame
  | readRejected _ _ hattr ih => exact ih trivial hg
  | readContent hfile hmode hattr hok ih =>
      exact AttrsVouched.readContent hattr hok
        (fun p hp => hcond (mode_ne_remote hmode) _ p hfile hp)
        (ih trivial (grows_outcome hattr).1) _ _
  | wrote _ _ =>
      exact hv.keep hg (fun _ _ => validatedAt_of_unstamp) (fun _ _ => entry_of_invalidateContent)
  | released => exact hv.keep hg (fun _ _ => by simp) hsame
  | created _ hcreate hst =>
      obtain ⟨-, rfl⟩ := Conn.create_eq hcreate
      refine hv.confirm hpast rfl ⟨rfl, rfl⟩ (fun q => ?_) (fun _ => by simp)
      have hq := congrArg (fun x => x.2.validatedAt q) hst
      simpa using hq.symm
  | madeDir _ hmkdir =>
      obtain ⟨-, rfl⟩ := Conn.mkdir_eq hmkdir
      exact hv.confirm hpast rfl ⟨rfl, rfl⟩ (fun q => by simp) (fun _ => by simp)
  | unlinked _ _ =>
      exact hv.keep hg (fun _ _ => by simp [forget]) fun _ _ h =>
        entry_of_remove (by simpa [forget] using h)
  | removedDir _ _ =>
      exact hv.keep hg (fun _ _ => by simp [forget]) fun _ _ h =>
        entry_of_remove (by simpa [forget] using h)
  | renamed hres hrename =>
      refine hv.mono hg fun q t e hq he => ?_
      simp only [State.validatedAt_unnegate, State.validatedAt_negate, State.validatedAt_unstamp,
        State.validatedAt_renamePath] at hq
      split at hq
      · cases hq
      · next hsrc =>
          simp only [Store.entry_invalidateChildren] at he
          rcases entry_rename_cases he with ⟨hkey, hmoved⟩ | hold
          · -- attributes that have moved come to a path without a time
            obtain rfl := RemotePath.ext hkey
            rw [hcond _ _ _ _ hres (Conn.rename_eq hrename).1 (Ne.symm hsrc)
              (by rw [hmoved]; simp)] at hq
            cases hq
          · exact .inl ⟨hq, e, hold, rfl⟩
  | setattrDone _ _ hset =>
      obtain ⟨-, rfl⟩ := Conn.setattr_eq hset
      exact hv.confirm hpast rfl ⟨rfl, rfl⟩ (fun q => rfl) (fun _ => rfl)

/-- What holds in every state of a run of online sessions. -/
structure AttrInv (w : World ρ) : Prop where
  online : w.offline = false
  logPast : LogPast w.conn
  stampsPast : StampsPast w
  vouched : AttrsVouched w

lemma attrInv_step (w : World ρ) (e : Event ρ) (hcond : Online e ∧ w.AttrsClear R e)
    (h : AttrInv w) : AttrInv (w.step R e) where
  online := online_step w e hcond.1 h.online
  logPast := logPast_step w e h.logPast
  stampsPast := stampsPast_step w e h.stampsPast
  vouched := by
    cases e with
    | call call => exact attrsVouched_outcome (outcome_exec R w call) h.stampsPast hcond.2 h.vouched
    | tick d => exact h.vouched
    | external remote => exact h.vouched
    | restart config => exact fun p t e hval => by cases hval

lemma attrInv_new {config : Config} (honline : config.cacheMode ≠ .offline) (disk : Disk)
    (remote : ρ) (now : ℕ) : AttrInv (World.new config disk ⟨remote, now, []⟩) where
  online := decide_eq_false honline
  logPast := by simp [LogPast, World.new]
  stampsPast := fun p t hval => by cases hval
  vouched := fun p t e hval => by cases hval

/-! ## The bound -/

/-- The attributes were reported for `path` less than the TTL ago. -/
def RecentlyReported (w : World ρ) (path : RemotePath) (attributes : FileAttributes) : Prop :=
  ∃ t, t ≤ w.conn.now ∧ w.conn.now - t < w.config.metadataTtl ∧ Reported w.conn t path attributes

/-- What `lookup` and `getattr` answer without a call to the remote was reported less than the
TTL ago. -/
def RecentAttrs (R : RemoteFilesystem ρ) (w : World ρ) : Event ρ → Prop
  | .call (.lookup parent name) => ∀ metadata, (w.lookup R parent name).1 = .ok metadata →
      (w.lookup R parent name).2.conn.log = w.conn.log →
      ∃ child, w.childPath parent name = .ok child ∧ w.RecentlyReported child metadata.attributes
  | .call (.getattr node) => ∀ metadata, (w.getattr R node).1 = .ok metadata →
      (w.getattr R node).2.conn.log = w.conn.log →
      ∃ path, w.state.path node = some path ∧ w.RecentlyReported path metadata.attributes
  | _ => True

/-- Fresh attributes were reported less than the TTL ago. -/
lemma AttrInv.recent {w : World ρ} (h : AttrInv w) {path : RemotePath}
    {attributes : FileAttributes} (hfresh : w.freshAttrs path = some attributes) :
    w.RecentlyReported path attributes := by
  obtain ⟨hmeta, hattrs⟩ := freshAttrs_eq_some.mp hfresh
  obtain ⟨t, hval, hage⟩ := (metadataFresh_iff h.online).mp hmeta
  rw [Store.getAttrs_eq] at hattrs
  obtain ⟨e, hentry, rfl⟩ := Option.map_eq_some_iff.mp hattrs
  obtain ⟨t', hle, hrep⟩ := h.vouched path t e hval hentry
  have hpast : t' ≤ w.conn.now := by
    obtain ⟨call, hmem, -⟩ := hrep
    exact h.logPast _ hmem
  exact ⟨t', hpast, by omega, hrep⟩

lemma recentAttrs_of_inv {w : World ρ} (h : AttrInv w) (e : Event ρ) : w.RecentAttrs R e := by
  cases e with
  | call call =>
      cases call with
      | lookup parent name =>
          intro metadata hok hlog
          cases hchild : w.childPath parent name with
          | error e => simp [lookup, hchild] at hok
          | ok child =>
              refine ⟨child, rfl, ?_⟩
              rcases lookup_answer (R := R) h.online hchild with
                ⟨-, heq⟩ | ⟨attributes, -, hfresh, heq⟩ | ⟨-, -, heq⟩
              · rw [heq] at hok
                cases hok
              · rw [heq] at hok
                cases hok
                exact h.recent hfresh
              · rw [heq, lookupRemote_conn] at hlog
                exact absurd hlog (List.cons_ne_self _ _)
      | getattr node =>
          intro metadata hok hlog
          obtain ⟨path, hpath⟩ := path_of_getattr hok
          refine ⟨path, hpath, ?_⟩
          rcases getattr_answer (R := R) h.online hpath with ⟨attributes, hfresh, heq⟩ | ⟨-, heq⟩
          · rw [heq] at hok
            cases hok
            exact h.recent hfresh
          · rw [heq, getattrRemote_conn] at hlog
            exact absurd hlog (List.cons_ne_self _ _)
      | _ => trivial
  | _ => trivial

/-- **Bounded age of attributes.**  In every run of online sessions that avoids the three calls
above, in every state the attributes of a confirmed path were reported for it at or after the
time it was confirmed, and whatever `lookup` or `getattr` answers without a call to the remote
was reported for its path less than the TTL ago. -/
theorem attrs_age_bounded (config : Config) (honline : config.cacheMode ≠ .offline)
    (disk : Disk) (remote : ρ) (now : ℕ) (es : List (Event ρ))
    (hclear : AllSteps (step R) (fun w e => Online e ∧ w.AttrsClear R e)
      (World.new config disk ⟨remote, now, []⟩) es) :
    (∀ w, Visits (step R) (World.new config disk ⟨remote, now, []⟩) es w → AttrsVouched w) ∧
      AllSteps (step R) (RecentAttrs R) (World.new config disk ⟨remote, now, []⟩) es :=
  ⟨fun _ hw => (visits_invariant attrInv_step (attrInv_new honline disk remote now) hclear
      hw).vouched,
    allSteps_of_invariant attrInv_step (fun _ e _ h => recentAttrs_of_inv h e)
      (attrInv_new honline disk remote now) hclear⟩

theorem attrs_age_bounded_lookup :
    (∀ w, Visits (step Memory.filesystem) (mount sampleTree 10)
      [.call (.lookup .root ['a']), .tick 5, .call (.lookup .root ['a'])] w → AttrsVouched w) ∧
    AllSteps (step Memory.filesystem) (RecentAttrs Memory.filesystem) (mount sampleTree 10)
      [.call (.lookup .root ['a']), .tick 5, .call (.lookup .root ['a'])] :=
  attrs_age_bounded _ (by decide) Disk.empty sampleTree 0 _
    ⟨⟨trivial, trivial⟩, ⟨trivial, trivial⟩, ⟨trivial, trivial⟩, trivial⟩

/-- The attributes of a directory are asked for, the TTL passes, and the directory is listed. -/
def confirmedByReaddir : List (Event Memory) :=
  [.call (.getattr .root), .tick 10, .call (.readdir .root)]

/-- `readdir` confirms the directory without asking for its attributes: those that `getattr`
serves then are as old as the TTL. -/
theorem readdir_renews_old_attrs :
    ¬ AttrsVouched (run (step Memory.filesystem) (mount sampleTree 10) confirmedByReaddir) ∧
    ¬ RecentAttrs Memory.filesystem
      (run (step Memory.filesystem) (mount sampleTree 10) confirmedByReaddir)
      (.call (.getattr .root)) := by
  set w := run (step Memory.filesystem) (mount sampleTree 10) confirmedByReaddir with hw
  have hlog : w.conn.log = [(10, .readDir .root
      (.ok [⟨['a'], Memory.attributes (.file [1, 2, 3] none)⟩])),
      (0, .stat .root (.ok (Memory.attributes .dir)))] := rfl
  -- the root was reported at time zero only
  have hzero : ∀ t a, Reported w.conn t .root a → t = 0 := by
    rintro t a ⟨call, hmem, hrep⟩
    rw [hlog] at hmem
    simp only [List.mem_cons, Prod.mk.injEq, List.not_mem_nil, or_false] at hmem
    rcases hmem with ⟨-, rfl⟩ | ⟨rfl, -⟩
    · obtain ⟨e, he, hvalid, hkey, -⟩ := hrep
      exact absurd hkey.symm (childKey_ne _ _ hvalid)
    · rfl
  constructor
  · intro h
    obtain ⟨t, hle, hrep⟩ := h .root 10 ⟨.ofAttributes (Memory.attributes .dir), none⟩ rfl rfl
    rw [hzero t _ hrep] at hle
    exact absurd hle (by decide)
  · intro h
    obtain ⟨path, hpath, t, -, hage, hrep⟩ := h ⟨.root, Memory.attributes .dir⟩ rfl rfl
    cases hpath
    rw [hzero t _ hrep] at hage
    exact absurd hage (by decide)

end World

end CacheShfs
