import CacheShfs.Vfs.Registry

/-!
# The age of a served listing

How old a listing can be that `readdir` serves from the cache.  The time in `validated` is
shared between the attributes and the listing of a path, and it is renewed by `lookup`,
`getattr`, the parent's `readdir`, `create`, `mkdir` and `setattr` without the listing being
fetched again.  So the TTL bounds the age of a listing only in runs where a path is confirmed
by one of these calls while no listing of it is cached (`StampsClear`): there every served
listing was returned by `read_dir` within the TTL (`listing_age_bounded`).
-/

namespace CacheShfs

open Machine

namespace World

variable {ρ : Type} {R : RemoteFilesystem ρ}

/-! ## Listings from the cache -/

lemma cachedChildren_names {path : RemotePath} {s : Store} {names : List Str}
    {children : List (Str × RemotePath × FileAttributes)}
    (h : cachedChildren path s names = some children) :
    (children.map Prod.fst).Sublist names := by
  induction names generalizing children with
  | nil =>
      cases h
      exact List.Sublist.slnil
  | cons name names ih =>
      unfold cachedChildren at h
      split at h
      · cases h
      · split at h
        · cases h
        · next rest hrest =>
            split at h
            · cases h
              exact (ih hrest).cons_cons name
            · cases h
              exact (ih hrest).cons name

lemma internChildren_names (children : List (Str × RemotePath × FileAttributes)) (st : State) :
    (internChildren children st).1.map DirectoryEntry.name = children.map Prod.fst := by
  induction children generalizing st with
  | nil => rfl
  | cons c rest ih =>
      obtain ⟨name, child, attributes⟩ := c
      simp [internChildren, ih]

/-- A listing from the cache shows names of the stored listing. -/
lemma readdirFromCache_names {w w' : World ρ} {path : RemotePath} {entries : List DirectoryEntry}
    (h : w.readdirFromCache path = some (entries, w')) :
    ∃ names, w.store.listing path.asStr = some names ∧
      (entries.map DirectoryEntry.name).Sublist names := by
  obtain ⟨names, children, hnames, hchildren, rfl, -⟩ := readdirFromCache_ok h
  rw [internChildren_names]
  exact ⟨names, hnames, cachedChildren_names hchildren⟩

/-- The remote answers: no listing fails for want of a connection. -/
def ReadDirReachable (R : RemoteFilesystem ρ) : Prop :=
  ∀ p r message, (R.readDir p r).1 ≠ .error (.unavailable message)

/-- A listing that comes from the remote is what the remote answers, without the dots. -/
lemma readdirRemote_ok (hreach : ReadDirReachable R) {w : World ρ} {path : RemotePath}
    {result : List DirectoryEntry} (h : (w.readdirRemote R path).1 = .ok result) :
    ∃ entries, (R.readDir path w.conn.remote).1 = .ok entries ∧
      (w.readdirRemote R path).2.conn =
        w.conn.record (.readDir path (.ok entries)) (R.readDir path w.conn.remote).2 ∧
      result.map (fun e => (e.name, e.metadata.attributes)) = realChildren entries ∧
      ∀ c ∈ realChildren entries, ValidComponent c.1 := by
  unfold readdirRemote at h ⊢
  split at h
  · next e conn hread =>
      have hnot : isUnreachable e = false := by
        cases e with
        | unavailable m => exact absurd (Conn.readDir_eq hread).1 (hreach _ _ m)
        | _ => rfl
      simp [hnot] at h
  · next entries conn hread =>
      obtain ⟨hans, rfl⟩ := Conn.readDir_eq hread
      refine ⟨entries, hans, ?_⟩
      simp only at h ⊢
      split at h
      · next out st hst =>
          cases h
          obtain ⟨hmap, hvalid⟩ := stampChildren_ok hst
          exact ⟨rfl, hmap, hvalid⟩
      · cases h

/-- **Where a listing comes from**: the cache, while it is fresh, or the remote. -/
lemma readdir_ok (hreach : ReadDirReachable R) {w : World ρ} (honline : w.offline = false)
    {node : NodeId} {result : List DirectoryEntry} (h : (w.readdir R node).1 = .ok result) :
    ∃ path, w.state.path node = some path ∧
      ((w.metadataFresh path = true ∧ ∃ w', w.readdirFromCache path = some (result, w') ∧
          (w.readdir R node).2 = w') ∨
        (if w.metadataFresh path then w.readdirFromCache path else none) = none ∧
        ∃ entries, (R.readDir path w.conn.remote).1 = .ok entries ∧
          (w.readdir R node).2.conn =
            w.conn.record (.readDir path (.ok entries)) (R.readDir path w.conn.remote).2 ∧
          result.map (fun e => (e.name, e.metadata.attributes)) = realChildren entries ∧
          ∀ c ∈ realChildren entries, ValidComponent c.1) := by
  unfold readdir at h ⊢
  split at h
  · cases h
  · next path hpath =>
      refine ⟨path, State.pathOf_ok.mp hpath, ?_⟩
      split at h
      · next entries w' hcache =>
          cases h
          split at hcache
          · next hfresh => exact .inl ⟨hfresh, w', hcache, rfl⟩
          · cases hcache
      · next hcache =>
          rw [honline, if_neg (by simp)] at h
          simp only [honline, Bool.false_eq_true, if_false]
          exact .inr ⟨hcache, readdirRemote_ok hreach h⟩

/-! ## What the history says about a listing -/

/-- At time `t`, `read_dir` of `path` returned a listing with these names. -/
def Listed (c : Conn ρ) (t : ℕ) (path : RemotePath) (names : List Str) : Prop :=
  ∃ entries, (t, RemoteCall.readDir path (.ok entries)) ∈ c.log ∧
    names = (realChildren entries).map Prod.fst

lemma Listed.grows {c c' : Conn ρ} {t : ℕ} {path : RemotePath} {names : List Str}
    (h : Listed c t path names) (hg : Grows c c') : Listed c' t path names := by
  obtain ⟨entries, hmem, hnames⟩ := h
  exact ⟨entries, hg.mem hmem, hnames⟩

/-- A listing that counts as fresh was returned at or after the time it counts from. -/
def ListingsVouched (w : World ρ) : Prop :=
  ∀ p t names, w.state.validatedAt p = some t → w.conn.now - t < w.config.metadataTtl →
    w.store.listing p.asStr = some names → ∃ t', t ≤ t' ∧ Listed w.conn t' p names

/-- The rule by which every call is handled: a fresh listing was there before, under the same
time, or is accounted for in the new history. -/
lemma ListingsVouched.mono {w w' : World ρ} (h : ListingsVouched w) (hg : Grows w.conn w'.conn)
    (hconfig : w'.config = w.config)
    (hcases : ∀ p t names, w'.state.validatedAt p = some t →
      w.conn.now - t < w.config.metadataTtl → w'.store.listing p.asStr = some names →
      (w.state.validatedAt p = some t ∧ w.store.listing p.asStr = some names) ∨
        ∃ t', t ≤ t' ∧ Listed w'.conn t' p names) :
    ListingsVouched w' := by
  intro p t names hval hfresh hlist
  rw [hg.now, hconfig] at hfresh
  rcases hcases p t names hval hfresh hlist with ⟨hval₀, hlist₀⟩ | hnew
  · obtain ⟨t', hle, hlisted⟩ := h p t names hval₀ hfresh hlist₀
    exact ⟨t', hle, hlisted.grows hg⟩
  · exact hnew

/-! ## Which calls renew the time of a path -/

/-- A path can be confirmed without its listing: none is cached (or nothing is ever fresh). -/
def ClearFor (w : World ρ) (key : Str) : Prop :=
  0 < w.config.metadataTtl → w.store.listing key = none

/-- `getattr` confirms a path without cached listing only. -/
def GetattrClear (R : RemoteFilesystem ρ) (w : World ρ) (node : NodeId) : Prop :=
  ∀ path attributes, w.state.path node = some path → w.freshAttrs path = none →
    (R.stat path w.conn.remote).1 = .ok attributes → w.ClearFor path.asStr

/-- Every path that an event confirms, other than by listing it, has no cached listing; and a
rename moves no listing to a path that counts as fresh. -/
def StampsClear (R : RemoteFilesystem ρ) (w : World ρ) : Event ρ → Prop
  | .call (.lookup parent name) => ∀ child attributes, w.childPath parent name = .ok child →
      w.freshNegative parent name = false → w.freshAttrs child = none →
      (R.stat child w.conn.remote).1 = .ok attributes → w.ClearFor child.asStr
  | .call (.getattr node) => w.GetattrClear R node
  | .call (.read handle _ _) => w.config.cacheMode ≠ .remote →
      ∀ file, w.state.file handle = some file → w.GetattrClear R file.node
  | .call (.readdir node) => ∀ path entries, w.state.path node = some path →
      (if w.metadataFresh path then w.readdirFromCache path else none) = none →
      (R.readDir path w.conn.remote).1 = .ok entries →
      ∀ c ∈ stampable (realChildren entries), w.ClearFor (childKey path.asStr c.1)
  | .call (.create parent name mode _) => ∀ parentPath child attributes,
      w.resolve parent name = .ok (parentPath, child) →
      (R.create child mode w.conn.remote).1 = .ok attributes → w.ClearFor child.asStr
  | .call (.mkdir parent name mode) => ∀ parentPath child attributes,
      w.resolve parent name = .ok (parentPath, child) →
      (R.mkdir child mode w.conn.remote).1 = .ok attributes → w.ClearFor child.asStr
  | .call (.rename parent name newParent newName) => ∀ srcParent dstParent src dst,
      w.resolveRename parent name newParent newName = .ok (srcParent, dstParent, src, dst) →
      (R.rename src dst w.conn.remote).1 = .ok () → src ≠ dst →
      w.store.listing src.asStr ≠ none → w.metadataFresh dst = false
  | .call (.setattr node set) => ∀ path attributes, w.ensureWritable = .ok () →
      w.state.path node = some path →
      (R.setattr path set w.conn.remote).1 = .ok attributes → w.ClearFor path.asStr
  | _ => True

/-- A session that is opened is an online one. -/
def Online : Event ρ → Prop
  | .restart config => config.cacheMode ≠ .offline
  | _ => True

lemma online_step (w : World ρ) (e : Event ρ) (he : Online e) (h : w.offline = false) :
    (w.step R e).offline = false := by
  cases e with
  | call call =>
      have hconfig := (grows_outcome (outcome_exec R w call)).2
      show decide ((w.exec R call).config.cacheMode = .offline) = false
      rw [hconfig]
      exact h
  | tick d => exact h
  | external remote => exact h
  | restart config => exact decide_eq_false he

/-- Stamping a clear path keeps every fresh listing accounted for. -/
lemma stamp_clear {w : World ρ} {p q : RemotePath} {t : ℕ} {names : List Str}
    (hclear : w.ClearFor p.asStr) (hval : (w.state.stamp p w.conn.now).validatedAt q = some t)
    (hfresh : w.conn.now - t < w.config.metadataTtl)
    (hlist : w.store.listing q.asStr = some names) : w.state.validatedAt q = some t := by
  rw [State.validatedAt_stamp] at hval
  split at hval
  · next hq =>
      cases hval
      have hnone := hclear (by omega)
      rw [hq, hnone] at hlist
      cases hlist
  · exact hval

/-- A listing that is left after `invalidate_children` was there before. -/
lemma listing_of_invalidateChildren {s : Store} {path : RemotePath} {key : Str}
    {names : List Str} (h : (s.invalidateChildren path).listing key = some names) :
    s.listing key = some names := by
  rw [Store.listing_invalidateChildren] at h
  split at h
  · cases h
  · exact h

lemma listing_of_remove {s : Store} {path : RemotePath} {key : Str} {names : List Str}
    (h : (s.remove path).listing key = some names) : s.listing key = some names := by
  rw [Store.listing_remove] at h
  split at h
  · cases h
  · exact h

/-- A listing after a rename has moved to the target, or was there before. -/
lemma listing_rename_cases {s : Store} {src dst : RemotePath} {key : Str} {names : List Str}
    (h : (s.rename src dst).listing key = some names) :
    (key = dst.asStr ∧ s.listing src.asStr = some names) ∨ s.listing key = some names := by
  rw [Store.listing_rename, Option.ite_none_left_eq_some] at h
  obtain ⟨-, h⟩ := h
  split at h
  · next hkey =>
      cases hsrc : s.listing src.asStr with
      | some ns =>
          rw [hsrc] at h
          exact .inl ⟨hkey, h⟩
      | none =>
          rw [hsrc] at h
          exact .inr (hkey ▸ h)
  · split at h
    · cases h
    · exact .inr h

lemma mode_ne_remote {m : CacheMode} (h : m = .onDemand ∨ m = .pinned) : m ≠ .remote := by
  rcases h with rfl | rfl <;> decide

/-- What a call that confirms one clear path leaves accounted for. -/
lemma ListingsVouched.confirm {w w' : World ρ} (h : ListingsVouched w)
    (hg : Grows w.conn w'.conn) (hconfig : w'.config = w.config) {p : RemotePath}
    (hclear : w.ClearFor p.asStr)
    (hval : ∀ q, w'.state.validatedAt q = (w.state.stamp p w.conn.now).validatedAt q)
    (hlist : ∀ key names, w'.store.listing key = some names → w.store.listing key = some names) :
    ListingsVouched w' := by
  refine h.mono hg hconfig fun q t _ hq hfresh hnames => ?_
  rw [hval] at hq
  have hold := hlist _ _ hnames
  exact .inl ⟨stamp_clear hclear hq hfresh hold, hold⟩

/-- What a call that confirms nothing leaves accounted for. -/
lemma ListingsVouched.keep {w w' : World ρ} (h : ListingsVouched w) (hg : Grows w.conn w'.conn)
    (hconfig : w'.config = w.config)
    (hval : ∀ q t, w'.state.validatedAt q = some t → w.state.validatedAt q = some t)
    (hlist : ∀ key names, w'.store.listing key = some names → w.store.listing key = some names) :
    ListingsVouched w' :=
  h.mono hg hconfig fun q t _ hq _ hnames => .inl ⟨hval q t hq, hlist _ _ hnames⟩

/-- A listing keeps everything accounted for, whether or not it is stamped itself. -/
lemma ListingsVouched.list {w : World ρ} (h : ListingsVouched w) (hpast : StampsPast w)
    {path : RemotePath} {entries : List RemoteDirectoryEntry} {conn : Conn ρ}
    (hread : w.conn.readDir R path = (.ok entries, conn))
    (hclear : ∀ c ∈ stampable (realChildren entries), w.ClearFor (childKey path.asStr c.1))
    {st st' : State} (hst : StampedBy path conn.now (realChildren entries) w.state st)
    (hval : ∀ q t, st'.validatedAt q = some t →
      (q = path ∧ t = conn.now) ∨ st.validatedAt q = some t) :
    ListingsVouched
      { w with
        conn := conn
        store := w.store.recordListing path (realChildren entries)
        state := st' } := by
  obtain ⟨-, rfl⟩ := Conn.readDir_eq hread
  refine h.mono (grows_record _ _ _) rfl fun q t names hq hfresh hnames => ?_
  have hlisted : Listed (w.conn.record (.readDir path (.ok entries))
      (R.readDir path w.conn.remote).2) w.conn.now path ((realChildren entries).map Prod.fst) :=
    ⟨entries, List.mem_cons_self, rfl⟩
  have hle : t ≤ w.conn.now := by
    rcases hval q t hq with ⟨-, rfl⟩ | hq
    · exact le_refl _
    · rcases hst.validatedAt q with ⟨hnow, -⟩ | hkeep
      · exact (Option.some.inj (hnow.symm.trans hq)).ge
      · exact hpast q t (hkeep ▸ hq)
  rw [Store.listing_recordListing] at hnames
  split at hnames
  · next hkey =>
      obtain rfl : q = path := RemotePath.ext hkey
      cases hnames
      exact .inr ⟨w.conn.now, hle, hlisted⟩
  · next hkey =>
      rcases hval q t hq with ⟨rfl, -⟩ | hq
      · exact absurd rfl hkey
      · rcases hst.validatedAt q with ⟨hnow, c, hc, hchild⟩ | hkeep
        · -- a stamped child has no listing, by assumption
          have hnone := hclear c hc (by omega)
          rw [hchild, hnone] at hnames
          cases hnames
        · exact .inl ⟨hkeep ▸ hq, hnames⟩

lemma listingsVouched_outcome {w w' : World ρ} {call : Call} (h : Outcome R w call w')
    (honline : w.offline = false) (hpast : StampsPast w) (hcond : w.StampsClear R (.call call))
    (hv : ListingsVouched w) : ListingsVouched w' := by
  obtain ⟨hg, hconfig⟩ := grows_outcome h
  induction h with
  | known hst => exact hv.keep hg hconfig (fun q t => by simp [hst.validatedAt]) (by simp)
  | failed _ hst => exact hv.keep hg hconfig (fun q t => by simp [hst.validatedAt]) (by simp)
  | lookupFound _ hchild hneg hstale hstat =>
      refine hv.confirm hg hconfig (hcond _ _ hchild hneg hstale (Conn.stat_eq hstat).1)
        (fun q => ?_) (by simp)
      rw [← hg.now]
      simp
  | lookupMissing _ _ _ =>
      exact hv.keep hg hconfig (fun _ _ => by simp) (fun _ _ => listing_of_remove)
  | getattrFound _ hpath hstale hstat =>
      refine hv.confirm hg hconfig (hcond _ _ hpath hstale (Conn.stat_eq hstat).1)
        (fun q => ?_) (by simp)
      rw [← hg.now]
  | getattrMissing _ _ _ =>
      exact hv.keep hg hconfig (fun _ _ => by simp) (fun _ _ => listing_of_remove)
  | listed _ hpath hcache hread hst =>
      exact hv.list hpast hread (hcond _ _ hpath hcache (Conn.readDir_eq hread).1)
        (stampedBy_of_eq hst) (fun q t => validatedAt_stamp_cases)
  | listedPartly _ hpath hcache hread hst =>
      exact hv.list hpast hread (hcond _ _ hpath hcache (Conn.readDir_eq hread).1)
        (stampedBy_of_eq hst) (fun q t => .inr)
  | opened _ => exact hv.keep hg hconfig (fun _ _ => by simp) (by simp)
  | truncated _ _ _ =>
      exact hv.keep hg hconfig (fun _ _ h => validatedAt_of_unstamp (by simpa using h)) (by simp)
  | readThrough _ _ => exact hv.keep hg hconfig (fun _ _ => id) (fun _ _ => id)
  | readRejected hfile hmode hattr ih => exact ih (hcond (mode_ne_remote hmode) _ hfile) hg hconfig
  | readContent hfile hmode hattr _ ih =>
      obtain ⟨hg', hconfig'⟩ := grows_outcome hattr
      have hv' := ih (hcond (mode_ne_remote hmode) _ hfile) hg' hconfig'
      have hframe := Store.read_frame (R := R)
      refine hv'.keep (grows_onlyReads (hframe _ _ _ _ _ _).2) rfl (fun _ _ => id) ?_
      intro key names hnames
      exact ((hframe _ _ _ _ _ _).1.listing key).symm.trans hnames
  | wrote _ _ =>
      exact hv.keep hg hconfig (fun _ _ => validatedAt_of_unstamp) (by simp)
  | released => exact hv.keep hg hconfig (fun _ _ => by simp) (fun _ _ => id)
  | created hres hcreate hst =>
      refine hv.confirm hg hconfig (hcond _ _ _ hres (Conn.create_eq hcreate).1) (fun q => ?_)
        (fun _ _ h => by simpa using listing_of_invalidateChildren h)
      rw [← hg.now]
      have hq := congrArg (fun x => x.2.validatedAt q) hst
      simpa using hq.symm
  | madeDir hres hmkdir =>
      refine hv.confirm hg hconfig (hcond _ _ _ hres (Conn.mkdir_eq hmkdir).1) (fun q => ?_)
        (fun _ _ h => by simpa using listing_of_invalidateChildren h)
      rw [← hg.now]
      simp
  | unlinked _ _ =>
      exact hv.keep hg hconfig (fun _ _ => by simp [forget])
        (fun _ _ h => listing_of_remove (listing_of_invalidateChildren h))
  | removedDir _ _ =>
      exact hv.keep hg hconfig (fun _ _ => by simp [forget])
        (fun _ _ h => listing_of_remove (listing_of_invalidateChildren h))
  | renamed hres hrename =>
      refine hv.mono hg hconfig fun q t names hq hfresh hnames => ?_
      simp only [State.validatedAt_unnegate, State.validatedAt_negate, State.validatedAt_unstamp,
        State.validatedAt_renamePath] at hq
      split at hq
      · cases hq
      · next hsrc =>
          have hlist := listing_of_invalidateChildren (listing_of_invalidateChildren hnames)
          refine .inl ⟨hq, ?_⟩
          have hmoved := listing_rename_cases hlist
          rcases hmoved with ⟨hkey, hmoved⟩ | hold
          · -- a listing that has moved comes to a path that is not fresh
            obtain rfl := RemotePath.ext hkey
            have hstale := hcond _ _ _ _ hres (Conn.rename_eq hrename).1 (Ne.symm hsrc)
              (by rw [hmoved]; simp)
            rw [(metadataFresh_iff honline).mpr ⟨t, hq, hfresh⟩] at hstale
            cases hstale
          · exact hold
  | setattrDone hwritable hpath hset =>
      refine hv.confirm hg hconfig (hcond _ _ hwritable hpath (Conn.setattr_eq hset).1)
        (fun q => ?_) (by simp)
      rw [← hg.now]

/-- What holds in every state of a run of online sessions. -/
structure ListingInv (w : World ρ) : Prop where
  online : w.offline = false
  logPast : LogPast w.conn
  stampsPast : StampsPast w
  vouched : ListingsVouched w

lemma listingInv_step (w : World ρ) (e : Event ρ) (hcond : Online e ∧ w.StampsClear R e)
    (h : ListingInv w) : ListingInv (w.step R e) where
  online := online_step w e hcond.1 h.online
  logPast := logPast_step w e h.logPast
  stampsPast := stampsPast_step w e h.stampsPast
  vouched := by
    cases e with
    | call call =>
        exact listingsVouched_outcome (outcome_exec R w call) h.online h.stampsPast hcond.2
          h.vouched
    | tick d =>
        intro p t names hval hfresh hnames
        simp only [step] at hfresh
        exact h.vouched p t names hval (by omega) hnames
    | external remote => exact h.vouched
    | restart config => exact fun p t names hval => by cases hval

lemma listingInv_new {config : Config} (honline : config.cacheMode ≠ .offline) (disk : Disk)
    (remote : ρ) (now : ℕ) : ListingInv (World.new config disk ⟨remote, now, []⟩) where
  online := decide_eq_false honline
  logPast := by simp [LogPast, World.new]
  stampsPast := fun p t hval => by cases hval
  vouched := fun p t names hval => by cases hval

/-! ## The bound -/

/-- A listing that `readdir` returns is the answer of a `read_dir` of this call, or shows names
of a listing of the directory that `read_dir` returned less than the TTL ago. -/
def RecentListing (R : RemoteFilesystem ρ) (w : World ρ) : Event ρ → Prop
  | .call (.readdir node) => ∀ result, (w.readdir R node).1 = .ok result →
      ∃ path, w.state.path node = some path ∧
        ((∃ entries, (w.readdir R node).2.conn.log =
              (w.conn.now, RemoteCall.readDir path (.ok entries)) :: w.conn.log ∧
            result.map (fun e => (e.name, e.metadata.attributes)) = realChildren entries) ∨
          ∃ t names, t ≤ w.conn.now ∧ w.conn.now - t < w.config.metadataTtl ∧
            Listed w.conn t path names ∧ (result.map DirectoryEntry.name).Sublist names)
  | _ => True

lemma recentListing_of_inv (hreach : ReadDirReachable R) {w : World ρ} (h : ListingInv w)
    (e : Event ρ) : w.RecentListing R e := by
  cases e with
  | call call =>
      cases call with
      | readdir node =>
          intro result hres
          obtain ⟨path, hpath, hserved | hlisted⟩ := readdir_ok hreach h.online hres
          · obtain ⟨hfresh, w', hcache, -⟩ := hserved
            obtain ⟨t, hval, hage⟩ := (metadataFresh_iff h.online).mp hfresh
            obtain ⟨names, hnames, hsub⟩ := readdirFromCache_names hcache
            obtain ⟨t', hle, hlisted⟩ := h.vouched path t names hval hage hnames
            have hpast : t' ≤ w.conn.now := by
              obtain ⟨entries, hmem, -⟩ := hlisted
              exact h.logPast _ hmem
            exact ⟨path, hpath, .inr ⟨t', names, hpast, by omega, hlisted, hsub⟩⟩
          · obtain ⟨-, entries, -, hconn, hresult, -⟩ := hlisted
            exact ⟨path, hpath, .inl ⟨entries, by rw [hconn]; rfl, hresult⟩⟩
      | _ => trivial
  | _ => trivial

/-- **Bounded age of listings.**  In every run of online sessions over a reachable remote in
which paths are confirmed only while no listing of them is cached, every listing that `readdir`
returns comes from a `read_dir` of this very call or from one less than the TTL ago. -/
theorem listing_age_bounded (hreach : ReadDirReachable R) (config : Config)
    (honline : config.cacheMode ≠ .offline) (disk : Disk) (remote : ρ) (now : ℕ)
    (es : List (Event ρ))
    (hclear : AllSteps (step R) (fun w e => Online e ∧ w.StampsClear R e)
      (World.new config disk ⟨remote, now, []⟩) es) :
    AllSteps (step R) (RecentListing R) (World.new config disk ⟨remote, now, []⟩) es :=
  allSteps_of_invariant listingInv_step (fun _ e _ h => recentListing_of_inv hreach h e)
    (listingInv_new honline disk remote now) hclear

theorem listing_age_bounded_twice :
    AllSteps (step Memory.filesystem) (RecentListing Memory.filesystem) (mount sampleTree 10)
      [.call (.readdir .root), .tick 5, .call (.readdir .root)] := by
  refine listing_age_bounded (fun p r m => Memory.answers.readDir_reachable p r m) _ (by decide)
    Disk.empty sampleTree 0 _ ⟨⟨trivial, ?_⟩, ⟨trivial, trivial⟩, ⟨trivial, ?_⟩, trivial⟩
  · intro path entries _ _ _ c _ _
    rfl
  · -- the second listing is served from the cache
    intro path entries hpath hcache
    cases hpath
    exact absurd (congrArg Option.isSome hcache) (by decide)

/-- A directory is listed and changed by somebody else; after the TTL its attributes are asked
for, and it is listed again. -/
def confirmedByGetattr : List (Event Memory) :=
  [.call (.readdir .root),
    .external (sampleTree.put ['/', 'b'] .dir trivial), .tick 10, .call (.getattr .root)]

/-- `getattr` renews the time of a directory but not its listing: the listing that is served
then is as old as the TTL. -/
theorem getattr_renews_old_listing :
    ¬ RecentListing Memory.filesystem
      (run (step Memory.filesystem) (mount sampleTree 10) confirmedByGetattr)
      (.call (.readdir .root)) := by
  set w := run (step Memory.filesystem) (mount sampleTree 10) confirmedByGetattr with hw
  intro h
  obtain ⟨path, -, ⟨entries, hlog, -⟩ | ⟨t, names, -, hage, ⟨entries, hmem, -⟩, -⟩⟩ :=
    h [⟨['a'], ⟨⟨2⟩, Memory.attributes (.file [1, 2, 3] none)⟩⟩] (by rw [hw]; decide)
  · -- the remote is not called
    have hlen := congrArg List.length hlog
    rw [hw, List.length_cons] at hlen
    exact absurd hlen (by decide)
  · -- the only listing of the history is ten nanoseconds old
    have hlog : w.conn.log = [(10, .stat .root (.ok (Memory.attributes .dir))),
        (0, .readDir .root (.ok [⟨['a'], Memory.attributes (.file [1, 2, 3] none)⟩]))] := rfl
    have hage' : 10 - t < 10 := hage
    rw [hlog] at hmem
    simp at hmem
    omega

end World

end CacheShfs
