import CacheShfs.Vfs.Agreement
import CacheShfs.Vfs.AttrAge
import CacheShfs.Vfs.Hydrate

/-!
# Attributes from before a write

A write through the mount is meant to evict the cached attributes of the file with its content.
What `write` and a truncating `open` drop is the content and the time of the last confirmation;
the attributes stay in the store and in the index on disk.  As long as the remote is asked before
they are served this makes no difference, and after a write `lookup` and `getattr` do ask.  The
other ways to the store do not: a listing from the cache (`listing_gives_old_attrs`), the fallback
for an unreachable remote, an offline session, and `readdir` of the path itself, which confirms it
without asking.  In a run that avoids them no old attributes are given (`old_attrs_not_given`).

Attributes move: a rename takes an entry to another path, and so does a read through a handle
whose node has been renamed.  `Dated` follows them from the write on, and `follows_run` shows that
it tells those reported since from those that the store had before.
-/

namespace CacheShfs

open Machine

namespace World

variable {ρ : Type} {R : RemoteFilesystem ρ} {w w' : World ρ} {path : RemotePath}

/-! ## Calls that give attributes -/

/-- The remote has reported no attributes of `path` from one connection to the other. -/
def Silent (path : RemotePath) : Conn ρ → Conn ρ → Prop :=
  Conn.Asked fun call => ∀ attributes, ¬ call.Reports path attributes

lemma not_silent_record {c : Conn ρ} {call : RemoteCall} {r : ρ} {a : FileAttributes}
    (h : call.Reports path a) : ¬ Silent path c (c.record call r) :=
  fun hsilent => Conn.asked_record_iff.mp hsilent a h

/-- The call returns these attributes for `path`. -/
def Gives (R : RemoteFilesystem ρ) (w : World ρ) (path : RemotePath)
    (attributes : FileAttributes) : Event ρ → Prop
  | .call (.lookup parent name) => w.childPath parent name = .ok path ∧
      ∃ n, (w.lookup R parent name).1 = .ok ⟨n, attributes⟩
  | .call (.getattr node) => w.state.path node = some path ∧
      ∃ n, (w.getattr R node).1 = .ok ⟨n, attributes⟩
  | .call (.readdir node) => ∃ dir result entry, w.state.path node = some dir ∧
      (w.readdir R node).1 = .ok result ∧ entry ∈ result ∧ dir.join entry.name = .ok path ∧
      entry.metadata.attributes = attributes
  | .call (.create parent name mode flags) => w.childPath parent name = .ok path ∧
      ∃ n handle, (w.create R parent name mode flags).1 = .ok ⟨⟨n, attributes⟩, handle⟩
  | .call (.mkdir parent name mode) => w.childPath parent name = .ok path ∧
      ∃ n, (w.mkdir R parent name mode).1 = .ok ⟨n, attributes⟩
  | .call (.setattr node set) => w.state.path node = some path ∧
      ∃ n, (w.setattr R node set).1 = .ok ⟨n, attributes⟩
  | _ => False

/-- The cache answers for the attributes of `path`: they are fresh, or the remote cannot be
reached. -/
def CacheAnswers (R : RemoteFilesystem ρ) (w : World ρ) (path : RemotePath) : Prop :=
  w.metadataFresh path = true ∨ ∃ m, (R.stat path w.conn.remote).1 = .error (.unavailable m)

/-- The call takes the attributes of `path` from the store, if they are there. -/
def Serves (R : RemoteFilesystem ρ) (w : World ρ) (path : RemotePath) : Event ρ → Prop
  | .call (.lookup parent name) => w.childPath parent name = .ok path ∧
      w.freshNegative parent name = false ∧ w.CacheAnswers R path
  | .call (.getattr node) => w.state.path node = some path ∧ w.CacheAnswers R path
  | .call (.readdir node) => ∃ dir names name, CacheServes R w node dir ∧
      w.store.getChildren dir = some names ∧ name ∈ names ∧ dir.join name = .ok path
  | _ => False

/-- A `stat` that reports nothing has the attributes from the store. -/
lemma stat_silent_iff {a : FileAttributes} {answer : Except Error FileMetadata} {conn : Conn ρ}
    (hanswer : answer.map FileMetadata.attributes = w.statOrCached R path)
    (hconn : conn = w.conn.record (.stat path (R.stat path w.conn.remote).1)
      (R.stat path w.conn.remote).2) :
    ((∃ n, answer = .ok ⟨n, a⟩) ∧ Silent path w.conn conn) ↔
      (∃ m, (R.stat path w.conn.remote).1 = .error (.unavailable m)) ∧
        w.store.getAttrs path = some a := by
  have hok : (∃ n, answer = .ok ⟨n, a⟩) ↔ answer.map FileMetadata.attributes = .ok a := by
    cases answer with
    | error e => simp [Except.map]
    | ok metadata =>
        simp only [Except.map, Except.ok.injEq]
        exact ⟨by rintro ⟨n, rfl⟩; rfl, fun h => ⟨metadata.node, by rw [← h]⟩⟩
  rw [hok, hanswer, statOrCached, hconn, Silent, Conn.asked_record_iff]
  cases (R.stat path w.conn.remote).1 with
  | ok b => simp [RemoteCall.Reports]
  | error e =>
      cases e with
      | unavailable m => cases w.store.getAttrs path <;> simp [RemoteCall.Reports]
      | _ => simp

lemma cacheAnswers_of_fresh {a b : FileAttributes} (h : w.freshAttrs path = some b) :
    w.CacheAnswers R path ∧ w.store.getAttrs path = some a ↔ b = a := by
  obtain ⟨hfresh, hattrs⟩ := freshAttrs_eq_some.mp h
  simp [CacheAnswers, hfresh, hattrs]

lemma cacheAnswers_of_stale {a : FileAttributes} (h : w.freshAttrs path = none) :
    w.CacheAnswers R path ∧ w.store.getAttrs path = some a ↔
      (∃ m, (R.stat path w.conn.remote).1 = .error (.unavailable m)) ∧
        w.store.getAttrs path = some a := by
  constructor
  · rintro ⟨hfresh | hfail, hattrs⟩
    · rw [freshAttrs_eq_some.mpr ⟨hfresh, hattrs⟩] at h
      cases h
    · exact ⟨hfail, hattrs⟩
  · exact fun ⟨hfail, hattrs⟩ => ⟨.inr hfail, hattrs⟩

/-- Offline, what is not fresh is not there. -/
lemma getAttrs_of_stale_offline (h : w.freshAttrs path = none) (hoff : w.offline = true) :
    w.store.getAttrs path = none := by
  rwa [freshAttrs, metadataFresh, hoff, Bool.true_or, if_pos rfl] at h

lemma lookup_silent_iff {a : FileAttributes} {parent : NodeId} {name : Str}
    (hchild : w.childPath parent name = .ok path) :
    ((∃ n, (w.lookup R parent name).1 = .ok ⟨n, a⟩) ∧
        Silent path w.conn (w.lookup R parent name).2.conn) ↔
      w.freshNegative parent name = false ∧ w.CacheAnswers R path ∧
        w.store.getAttrs path = some a := by
  unfold lookup
  rw [hchild]
  simp only
  cases hneg : w.freshNegative parent name with
  | true => simp
  | false =>
      cases hfresh : w.freshAttrs path with
      | some b =>
          rw [cacheAnswers_of_fresh hfresh]
          simp [answerAs, Silent, Conn.Asked.refl]
      | none =>
          rw [cacheAnswers_of_stale hfresh]
          cases hoff : w.offline with
          | true => simp [getAttrs_of_stale_offline hfresh hoff]
          | false =>
              simpa using stat_silent_iff (lookupRemote_attributes w parent name path)
                (lookupRemote_conn w parent name path)

lemma getattr_silent_iff {a : FileAttributes} {node : NodeId}
    (hpath : w.state.path node = some path) :
    ((∃ n, (w.getattr R node).1 = .ok ⟨n, a⟩) ∧
        Silent path w.conn (w.getattr R node).2.conn) ↔
      w.CacheAnswers R path ∧ w.store.getAttrs path = some a := by
  unfold getattr
  rw [State.pathOf_ok.mpr hpath]
  simp only
  cases hfresh : w.freshAttrs path with
  | some b =>
      rw [cacheAnswers_of_fresh hfresh]
      simp [Silent, Conn.Asked.refl]
  | none =>
      rw [cacheAnswers_of_stale hfresh]
      cases hoff : w.offline with
      | true => simp [getAttrs_of_stale_offline hfresh hoff]
      | false =>
          simpa using stat_silent_iff (getattrRemote_attributes w node path)
            (getattrRemote_conn w node path)

/-- The entries of a cached listing. -/
lemma readdirFromCache_entry {dir : RemotePath} {result : List DirectoryEntry}
    (h : w.readdirFromCache dir = some (result, w')) {a : FileAttributes} :
    (∃ entry ∈ result, dir.join entry.name = .ok path ∧ entry.metadata.attributes = a) ↔
      (∃ names name, w.store.getChildren dir = some names ∧ name ∈ names ∧
        dir.join name = .ok path) ∧ w.store.getAttrs path = some a := by
  obtain ⟨names, children, hnames, hchildren, rfl, -⟩ := readdirFromCache_ok h
  have hshown := internChildren_shown children w.state
  constructor
  · rintro ⟨entry, hmem, hjoin, rfl⟩
    obtain ⟨c, hc, heq⟩ := List.mem_map.mp
      (hshown ▸ List.mem_map_of_mem (f := DirectoryEntry.shown) hmem)
    obtain ⟨hname, hchild, hattrs⟩ := (mem_cachedChildren hchildren).mp hc
    obtain ⟨hsame, hvalue⟩ := Prod.ext_iff.mp heq
    simp only [DirectoryEntry.shown] at hsame hvalue
    rw [hsame, hjoin] at hchild
    rw [← Except.ok.inj hchild, hvalue] at hattrs
    exact ⟨⟨names, entry.name, hnames, hsame ▸ hname, hjoin⟩, hattrs⟩
  · rintro ⟨⟨names', name, hnames', hname, hjoin⟩, hattrs⟩
    obtain rfl := Option.some.inj (hnames'.symm.trans hnames)
    have hc : (name, path, a) ∈ children :=
      (mem_cachedChildren hchildren).mpr ⟨hname, hjoin, hattrs⟩
    have hentry : (name, a) ∈ (internChildren children w.state).1.map
        DirectoryEntry.shown := by
      rw [hshown]
      exact List.mem_map.mpr ⟨_, hc, rfl⟩
    obtain ⟨entry, hmem, heq⟩ := List.mem_map.mp hentry
    cases heq
    exact ⟨entry, hmem, hjoin, rfl⟩

/-- A fetched listing reports what it gives. -/
lemma Fetches.reports {node : NodeId} {dir : RemotePath} {entries : List RemoteDirectoryEntry}
    (h : Fetches R w node dir entries) {name : Str} {a : FileAttributes}
    (hmem : (name, a) ∈ realChildren entries) (hjoin : dir.join name = .ok path) :
    ¬ Silent path w.conn (w.readdir R node).2.conn := by
  obtain ⟨e, he, heq⟩ := List.mem_map.mp hmem
  cases heq
  obtain ⟨hvalid, hkey⟩ := RemotePath.join_ok_iff.mp hjoin
  rw [h.conn]
  exact not_silent_record (a := e.attributes)
    ⟨e, List.mem_of_mem_filter he, hvalid, hkey, rfl⟩

lemma readdir_silent_iff {a : FileAttributes} {node : NodeId} {dir : RemotePath}
    (hdir : w.state.path node = some dir) :
    ((∃ result entry, (w.readdir R node).1 = .ok result ∧ entry ∈ result ∧
          dir.join entry.name = .ok path ∧ entry.metadata.attributes = a) ∧
        Silent path w.conn (w.readdir R node).2.conn) ↔
      (∃ names name, CacheServes R w node dir ∧ w.store.getChildren dir = some names ∧
          name ∈ names ∧ dir.join name = .ok path) ∧ w.store.getAttrs path = some a := by
  constructor
  · rintro ⟨⟨result, entry, hok, hmem, hjoin, hattrs⟩, hsilent⟩
    rcases readdir_ok_cases hdir hok with ⟨entries, hf, hshown⟩ | hserves
    · exact absurd hsilent
        (hf.reports (hshown ▸ List.mem_map_of_mem (f := DirectoryEntry.shown) hmem) hjoin)
    · obtain ⟨result', st, conn, hcached, hread, -⟩ := hserves.readdir
      rw [hread] at hok
      obtain rfl := Except.ok.inj hok
      obtain ⟨⟨names, name, hname⟩, hstored⟩ :=
        (readdirFromCache_entry hcached).mp ⟨entry, hmem, hjoin, hattrs⟩
      exact ⟨⟨names, name, hserves, hname⟩, hstored⟩
  · rintro ⟨⟨names, name, hserves, hname⟩, hstored⟩
    obtain ⟨result, st, conn, hcached, hread, hconn⟩ := hserves.readdir
    obtain ⟨entry, hentry⟩ := (readdirFromCache_entry hcached).mpr ⟨⟨names, name, hname⟩, hstored⟩
    rw [hread]
    refine ⟨⟨result, entry, rfl, hentry⟩, ?_⟩
    rcases hconn with rfl | ⟨rfl, m, hfail⟩
    · exact Conn.Asked.refl _
    · refine Conn.asked_record _ _ fun attributes => ?_
      rw [hfail]
      exact id

/-- The paths of a mutation are those of `lookup`. -/
lemma child_of_resolve {parent : NodeId} {name : Str} {parentPath child : RemotePath}
    (hres : w.resolve parent name = .ok (parentPath, child))
    (hchild : w.childPath parent name = .ok path) : child = path := by
  obtain ⟨hparent, hjoin⟩ := resolve_ok hres
  obtain ⟨p, hp, hjoin'⟩ := childPath_ok.mp hchild
  obtain rfl := Option.some.inj (hp.symm.trans hparent)
  exact Except.ok.inj (hjoin.symm.trans hjoin')

lemma create_reports {parent : NodeId} {name : Str} {mode : UInt32} {flags : OpenFlags}
    (hchild : w.childPath parent name = .ok path) {created : CreatedFile}
    (hok : (w.create R parent name mode flags).1 = .ok created) :
    ¬ Silent path w.conn (w.create R parent name mode flags).2.conn := by
  unfold create at hok ⊢
  cases hres : w.resolve parent name with
  | error e => simp [hres] at hok
  | ok paths =>
      obtain ⟨parentPath, child⟩ := paths
      obtain rfl := child_of_resolve hres hchild
      rw [hres] at hok
      rcases hcall : w.conn.create R child mode with ⟨e | attributes, conn⟩
      · simp [hcall] at hok
      · obtain ⟨-, rfl⟩ := Conn.create_eq hcall
        simp only [hcall]
        exact not_silent_record ⟨rfl, rfl⟩

lemma mkdir_reports {parent : NodeId} {name : Str} {mode : UInt32}
    (hchild : w.childPath parent name = .ok path) {metadata : FileMetadata}
    (hok : (w.mkdir R parent name mode).1 = .ok metadata) :
    ¬ Silent path w.conn (w.mkdir R parent name mode).2.conn := by
  unfold mkdir at hok ⊢
  cases hres : w.resolve parent name with
  | error e => simp [hres] at hok
  | ok paths =>
      obtain ⟨parentPath, child⟩ := paths
      obtain rfl := child_of_resolve hres hchild
      rw [hres] at hok
      rcases hcall : w.conn.mkdir R child mode with ⟨e | attributes, conn⟩
      · simp [hcall] at hok
      · obtain ⟨-, rfl⟩ := Conn.mkdir_eq hcall
        simp only [hcall]
        exact not_silent_record ⟨rfl, rfl⟩

lemma setattr_reports {node : NodeId} {set : SetAttributes}
    (hpath : w.state.path node = some path) {metadata : FileMetadata}
    (hok : (w.setattr R node set).1 = .ok metadata) :
    ¬ Silent path w.conn (w.setattr R node set).2.conn := by
  unfold setattr at hok ⊢
  cases hwritable : w.ensureWritable with
  | error e => simp [hwritable] at hok
  | ok _ =>
      rw [hwritable, State.pathOf_ok.mpr hpath] at hok
      rw [State.pathOf_ok.mpr hpath]
      rcases hcall : w.conn.setattr R path set with ⟨e | attributes, conn⟩
      · simp [hcall] at hok
      · obtain ⟨-, rfl⟩ := Conn.setattr_eq hcall
        simp only [hcall]
        exact not_silent_record ⟨rfl, rfl⟩

/-- **Attributes that come without a report come from the store.** -/
lemma gives_silent_iff {a : FileAttributes} (e : Event ρ) :
    Gives R w path a e ∧ Silent path w.conn (w.step R e).conn ↔
      Serves R w path e ∧ w.store.getAttrs path = some a := by
  cases e with
  | call call =>
      cases call with
      | lookup parent name =>
          simp only [Gives, Serves, and_assoc]
          exact and_congr_right fun hchild => lookup_silent_iff hchild
      | getattr node =>
          simp only [Gives, Serves, and_assoc]
          exact and_congr_right fun hpath => getattr_silent_iff hpath
      | readdir node =>
          constructor
          · rintro ⟨⟨dir, result, entry, hdir, hentry⟩, hsilent⟩
            obtain ⟨⟨names, name, hname⟩, hstored⟩ :=
              (readdir_silent_iff hdir).mp ⟨⟨result, entry, hentry⟩, hsilent⟩
            exact ⟨⟨dir, names, name, hname⟩, hstored⟩
          · rintro ⟨⟨dir, names, name, hserves, hname⟩, hstored⟩
            obtain ⟨⟨result, entry, hentry⟩, hsilent⟩ :=
              (readdir_silent_iff hserves.hasPath).mpr ⟨⟨names, name, hserves, hname⟩, hstored⟩
            exact ⟨⟨dir, result, entry, hserves.hasPath, hentry⟩, hsilent⟩
      | create parent name mode flags =>
          simp only [Serves, false_and, iff_false, not_and]
          rintro ⟨hchild, n, handle, hok⟩
          exact create_reports hchild hok
      | mkdir parent name mode =>
          simp only [Serves, false_and, iff_false, not_and]
          rintro ⟨hchild, n, hok⟩
          exact mkdir_reports hchild hok
      | setattr node set =>
          simp only [Serves, false_and, iff_false, not_and]
          rintro ⟨hpath, n, hok⟩
          exact setattr_reports hpath hok
      | _ => simp [Gives, Serves]
  | _ => simp [Gives, Serves]

/-! ## Confirmations -/

lemma Silent.trans_iff {c c' c'' : Conn ρ} (h : c.Extends c') (h' : c'.Extends c'') :
    Silent path c c'' ↔ Silent path c c' ∧ Silent path c' c'' :=
  Conn.asked_trans_iff h h'

/-- The children that a listing confirms are reported by it. -/
lemma stampedBy_silent {dir : RemotePath} {entries : List RemoteDirectoryEntry} {conn : Conn ρ}
    (hread : w.conn.readDir R dir = (.ok entries, conn)) {now : ℕ} {st : State}
    (hst : StampedBy dir now (realChildren entries) w.state st)
    (hsilent : Silent path w.conn conn) :
    st.validatedAt path = w.state.validatedAt path := by
  rcases hst.validatedAt path with ⟨-, c, hc, hkey⟩ | hkeep
  · obtain ⟨hmem, hvalid⟩ := mem_stampable hc
    obtain ⟨e, he, rfl⟩ := List.mem_map.mp hmem
    obtain ⟨-, rfl⟩ := Conn.readDir_eq hread
    exact absurd hsilent (not_silent_record (a := e.attributes)
      ⟨e, List.mem_of_mem_filter he, hvalid, hkey, rfl⟩)
  · exact hkeep

/-- **A path is confirmed by a report, or by a listing of itself.** -/
lemma unconfirmed_outcome {call : Call} (h : Outcome R w call w')
    (hsilent : Silent path w.conn w'.conn)
    (hlist : ∀ node entries, call = .readdir node → ¬ Fetches R w node path entries)
    (hnone : w.state.validatedAt path = none) : w'.state.validatedAt path = none := by
  have hstamp : ∀ {st : State} {p : RemotePath} {t : ℕ}, p ≠ path →
      st.validatedAt path = none → (st.stamp p t).validatedAt path = none := by
    intro st p t hne hst
    rw [State.validatedAt_stamp, if_neg (Ne.symm hne), hst]
  have hunstamp : ∀ p, (w.state.unstamp p).validatedAt path = none := by
    intro p
    rw [State.validatedAt_unstamp, hnone, ite_self]
  induction h with
  | known hst => exact (hst.validatedAt path).trans hnone
  | failed _ hst => exact (hst.validatedAt path).trans hnone
  | lookupFound _ _ _ _ hstat =>
      obtain ⟨-, rfl⟩ := Conn.stat_eq hstat
      rw [State.validatedAt_intern, State.validatedAt_unnegate]
      exact hstamp (fun hp => absurd hsilent (not_silent_record ⟨hp, rfl⟩)) hnone
  | lookupMissing _ _ _ => exact hnone
  | getattrFound _ _ _ hstat =>
      obtain ⟨-, rfl⟩ := Conn.stat_eq hstat
      exact hstamp (fun hp => absurd hsilent (not_silent_record ⟨hp, rfl⟩)) hnone
  | getattrMissing _ _ _ => exact hnone
  | @listed node dir entries conn _ st honline hdir hcache hread hst =>
      refine hstamp ?_ ((stampedBy_silent hread (stampedBy_of_eq hst) hsilent).trans hnone)
      rintro rfl
      exact hlist node entries rfl ⟨honline, hdir, hcache, (Conn.readDir_eq hread).1⟩
  | listedPartly _ _ _ hread hst =>
      exact (stampedBy_silent hread (stampedBy_of_eq hst) hsilent).trans hnone
  | opened _ => exact hnone
  | truncated _ _ _ => exact hunstamp _
  | readThrough _ _ => exact hnone
  | readRejected _ _ _ ih => exact ih hsilent (by simp)
  | readContent _ _ hattr _ ih =>
      have hsilent := (Silent.trans_iff (grows_outcome hattr).1.extends
        (grows_onlyReads (Store.read_frame _ _ _ _ _ _).2).extends).mp hsilent
      exact ih hsilent.1 (by simp)
  | wrote _ _ => exact hunstamp _
  | released => exact hnone
  | @created parent name _ _ _ child _ conn _ hcreate _ _ hst =>
      obtain ⟨-, rfl⟩ := Conn.create_eq hcreate
      have hval := congrArg (fun x => x.2.validatedAt path) hst
      simp only [State.validatedAt_intern, State.validatedAt_unnegate] at hval
      rw [State.validatedAt_openHandle, ← hval]
      exact hstamp (fun hp => absurd hsilent (not_silent_record ⟨hp, rfl⟩)) hnone
  | madeDir _ hmkdir =>
      obtain ⟨-, rfl⟩ := Conn.mkdir_eq hmkdir
      rw [State.validatedAt_intern, State.validatedAt_unnegate]
      exact hstamp (fun hp => absurd hsilent (not_silent_record ⟨hp, rfl⟩)) hnone
  | unlinked _ _ => exact hnone
  | removedDir _ _ => exact hnone
  | renamed _ _ =>
      rw [State.validatedAt_unnegate, State.validatedAt_negate, State.validatedAt_unstamp,
        State.validatedAt_renamePath, hnone, ite_self]
  | setattrDone _ _ hset =>
      obtain ⟨-, rfl⟩ := Conn.setattr_eq hset
      exact hstamp (fun hp => absurd hsilent (not_silent_record ⟨hp, rfl⟩)) hnone

/-! ## Where stored attributes come from -/

/-- Between two connections the remote has reported these attributes for `path`. -/
def ReportedSince (c c' : Conn ρ) (path : RemotePath) (attributes : FileAttributes) : Prop :=
  ∃ calls, c'.log = calls ++ c.log ∧ ∃ x ∈ calls, x.2.Reports path attributes

lemma reportedSince_record {c : Conn ρ} {call : RemoteCall} {r : ρ} {a : FileAttributes}
    (h : call.Reports path a) : ReportedSince c (c.record call r) path a :=
  ⟨[(c.now, call)], rfl, _, List.mem_singleton_self _, h⟩

lemma ReportedSince.grow {c c' c'' : Conn ρ} {a : FileAttributes}
    (h : ReportedSince c c' path a) (hgrow : c'.Extends c'') :
    ReportedSince c c'' path a := by
  obtain ⟨calls, hlog, x, hx, hreports⟩ := h
  obtain ⟨calls', hlog'⟩ := hgrow
  exact ⟨calls' ++ calls, by rw [hlog', hlog, List.append_assoc], x,
    List.mem_append_right _ hx, hreports⟩

lemma ReportedSince.since {c c' c'' : Conn ρ} {a : FileAttributes}
    (h : ReportedSince c' c'' path a) (hgrow : c.Extends c') :
    ReportedSince c c'' path a := by
  obtain ⟨calls', hlog', x, hx, hreports⟩ := h
  obtain ⟨calls, hlog⟩ := hgrow
  exact ⟨calls' ++ calls, by rw [hlog', hlog, List.append_assoc], x,
    List.mem_append_left _ hx, hreports⟩

/-- The event leaves under `q` the attributes of `src`: a rename moves the entry, and a read
through a handle away from its node records an entry for the path of the handle. -/
def Brings (R : RemoteFilesystem ρ) (w : World ρ) (src q : RemotePath) : Event ρ → Prop
  | .call (.rename parent name newParent newName) =>
      Renames R w src q (.call (.rename parent name newParent newName)) ∧
        w.store.entry src.asStr ≠ none
  | .call (.read handle _ _) => ∃ file, w.state.file handle = some file ∧ file.path = q ∧
      w.store.entry q.asStr = none ∧ w.state.path file.node = some src
  | _ => False

/-- The attributes of `q` after the event were those of `src` before it, unless it reports
others. -/
def ComesFrom (R : RemoteFilesystem ρ) (w : World ρ) (src q : RemotePath) (e : Event ρ) : Prop :=
  Brings R w src q e ∨ src = q ∧ ∀ r, ¬ Brings R w r q e

lemma Brings.unique {src src' q : RemotePath} {e : Event ρ} (h : Brings R w src q e)
    (h' : Brings R w src' q e) : src = src' := by
  cases e with
  | call call =>
      cases call with
      | rename parent name newParent newName =>
          obtain ⟨⟨⟨_, _, hres⟩, -⟩, -⟩ := h
          obtain ⟨⟨⟨_, _, hres'⟩, -⟩, -⟩ := h'
          cases hres.symm.trans hres'
          rfl
      | read handle offset size =>
          obtain ⟨file, hfile, -, -, hpath⟩ := h
          obtain ⟨file', hfile', -, -, hpath'⟩ := h'
          obtain rfl := Option.some.inj (hfile.symm.trans hfile')
          exact Option.some.inj (hpath.symm.trans hpath')
      | _ => exact absurd h id
  | _ => exact absurd h id

lemma ComesFrom.unique {src src' q : RemotePath} {e : Event ρ} (h : ComesFrom R w src q e)
    (h' : ComesFrom R w src' q e) : src = src' := by
  rcases h with hb | ⟨rfl, hnot⟩
  · rcases h' with hb' | ⟨rfl, hnot'⟩
    · exact hb.unique hb'
    · exact absurd hb (hnot' src)
  · rcases h' with hb' | ⟨rfl, -⟩
    · exact absurd hb' (hnot src')
    · rfl

lemma getAttrs_of_entry {s s' : Store} {q : RemotePath} {a : FileAttributes}
    (hentry : ∀ e, s'.entry q.asStr = some e → ∃ e₀, s.entry q.asStr = some e₀ ∧
      e₀.attrs = e.attrs) (h : s'.getAttrs q = some a) : s.getAttrs q = some a := by
  rw [Store.getAttrs_eq] at h ⊢
  obtain ⟨e, he, rfl⟩ := Option.map_eq_some_iff.mp h
  obtain ⟨e₀, he₀, hattrs⟩ := hentry e he
  rw [he₀, Option.map_some, hattrs]

/-- Attributes that have just been stored are those that were stored, or the path is another. -/
lemma getAttrs_putAttrs_cases {s : Store} {p q : RemotePath} {a b : FileAttributes}
    (h : (s.putAttrs p b).getAttrs q = some a) : (p = q ∧ b = a) ∨ s.getAttrs q = some a := by
  by_cases hkey : q.asStr = p.asStr
  · obtain rfl := RemotePath.ext hkey
    rw [Store.getAttrs_putAttrs_self] at h
    exact .inl ⟨rfl, Option.some.inj h⟩
  · rw [Store.getAttrs_eq, Store.entry_putAttrs, if_neg hkey] at h
    exact .inr h

/-- A read keeps attributes, or records those of the handle's node for its path. -/
lemma readFrame_getAttrs {s s' : Store} {p q : RemotePath} {attrs a : FileAttributes}
    (hframe : Store.ReadFrame p attrs s s') (h : s'.getAttrs q = some a) :
    s.getAttrs q = some a ∨ q = p ∧ s.entry q.asStr = none ∧ attrs = a := by
  obtain ⟨e, he, ha⟩ := Option.map_eq_some_iff.mp (Store.getAttrs_eq q s' ▸ h)
  rcases hframe.attrs_cases he with hold | ⟨hkey, hnone, hnew⟩
  · refine .inl (getAttrs_of_entry (fun e' he' => ?_) h)
    obtain rfl := Option.some.inj (he.symm.trans he')
    exact hold
  · refine .inr ⟨RemotePath.ext hkey, hnone, ?_⟩
    rw [hnew] at ha
    simpa using ha

/-- **A call that brings no attributes from elsewhere reports those it leaves, or keeps them.** -/
lemma attrs_outcome {call : Call} (h : Outcome R w call w') {q : RemotePath} {a : FileAttributes}
    (hstay : ∀ r, Brings R w r q (.call call) → r = q) (hattrs : w'.store.getAttrs q = some a) :
    ReportedSince w.conn w'.conn q a ∨ w.store.getAttrs q = some a := by
  have hlisted : ∀ {dir : RemotePath} {entries : List RemoteDirectoryEntry} {conn : Conn ρ},
      w.conn.readDir R dir = (.ok entries, conn) →
      (w.store.recordListing dir (realChildren entries)).getAttrs q = some a →
      ReportedSince w.conn conn q a ∨ w.store.getAttrs q = some a := by
    intro dir entries conn hread hattrs
    obtain ⟨-, rfl⟩ := Conn.readDir_eq hread
    rcases Store.entry_recordListing dir (realChildren entries) w.store q.asStr with
      ⟨name, attrs, content, hmem, hvalid, hkey, hentry⟩ | ⟨-, hentry⟩
    · rw [Store.getAttrs_eq, hentry] at hattrs
      obtain ⟨e, hmem', heq⟩ := List.mem_map.mp hmem
      cases heq
      exact .inl (reportedSince_record
        ⟨e, List.mem_of_mem_filter hmem', hvalid, hkey, by simpa using hattrs⟩)
    · rw [Store.getAttrs_eq, hentry] at hattrs
      exact .inr hattrs
  induction h with
  | lookupFound _ _ _ _ hstat =>
      obtain ⟨-, rfl⟩ := Conn.stat_eq hstat
      exact (getAttrs_putAttrs_cases hattrs).imp_left reportedSince_record
  | lookupMissing _ _ _ => exact .inr (getAttrs_of_entry (fun _ => entry_of_remove) hattrs)
  | getattrFound _ _ _ hstat =>
      obtain ⟨-, rfl⟩ := Conn.stat_eq hstat
      exact (getAttrs_putAttrs_cases hattrs).imp_left reportedSince_record
  | getattrMissing _ _ _ => exact .inr (getAttrs_of_entry (fun _ => entry_of_remove) hattrs)
  | listed _ _ _ hread _ => exact hlisted hread hattrs
  | listedPartly _ _ _ hread _ => exact hlisted hread hattrs
  | truncated _ _ _ =>
      exact .inr (getAttrs_of_entry (fun _ => entry_of_invalidateContent) hattrs)
  | readRejected _ _ _ ih => exact ih (fun _ => False.elim) hattrs
  | @readContent handle offset size file metadata w₁ hfile _ hattr hok ih =>
      have hreads := grows_onlyReads (Store.read_frame (R := R) file.path metadata.attributes offset
        size w₁.store w₁.conn).2
      rcases readFrame_getAttrs (Store.read_frame _ _ _ _ _ _).1 hattrs with hold | ⟨hq, hnone, -⟩
      · exact (ih (fun _ => False.elim) hold).imp_left fun h => h.grow hreads.extends
      · -- the node has another path, so its attributes would have been brought
        obtain ⟨p, hp⟩ := path_of_getattr (congrArg Prod.fst hok)
        have hne : q ≠ p := by
          rintro rfl
          have hstored := getattr_ok_entry hp hok
          rw [Store.getAttrs_eq, hnone] at hstored
          cases hstored
        refine absurd (hstay p ⟨file, hfile, hq.symm, ?_, hp⟩) (Ne.symm hne)
        rw [← (getattr_frame hattr hp hne).2, hnone]
  | wrote _ _ => exact .inr (getAttrs_of_entry (fun _ => entry_of_invalidateContent) hattrs)
  | created _ hcreate _ =>
      obtain ⟨-, rfl⟩ := Conn.create_eq hcreate
      rw [Store.getAttrs_eq, Store.entry_invalidateChildren, ← Store.getAttrs_eq] at hattrs
      exact (getAttrs_putAttrs_cases hattrs).imp_left reportedSince_record
  | madeDir _ hmkdir =>
      obtain ⟨-, rfl⟩ := Conn.mkdir_eq hmkdir
      rw [Store.getAttrs_eq, Store.entry_invalidateChildren, ← Store.getAttrs_eq] at hattrs
      exact (getAttrs_putAttrs_cases hattrs).imp_left reportedSince_record
  | unlinked _ _ =>
      exact .inr (getAttrs_of_entry
        (fun _ he => entry_of_remove (by simpa [forget] using he)) hattrs)
  | removedDir _ _ =>
      exact .inr (getAttrs_of_entry
        (fun _ he => entry_of_remove (by simpa [forget] using he)) hattrs)
  | @renamed _ _ _ _ _ _ src dst _ hres hrename =>
      rw [Store.getAttrs_eq, Store.entry_invalidateChildren, Store.entry_invalidateChildren,
        ← Store.getAttrs_eq] at hattrs
      refine .inr (getAttrs_of_entry (fun e he => ?_) hattrs)
      rcases entry_rename_cases he with ⟨hkey, hmoved⟩ | hold
      · obtain rfl := RemotePath.ext hkey
        have hsame : src = q := hstay src
          ⟨⟨⟨_, _, hres⟩, (Conn.rename_eq hrename).1⟩, by rw [hmoved]; simp⟩
        exact ⟨e, hsame ▸ hmoved, rfl⟩
      · exact ⟨e, hold, rfl⟩
  | setattrDone _ _ hset =>
      obtain ⟨-, rfl⟩ := Conn.setattr_eq hset
      exact (getAttrs_putAttrs_cases hattrs).imp_left reportedSince_record
  | _ => exact .inr hattrs

/-- The attributes that a rename brings. -/
lemma attrs_renamed {src q : RemotePath} {e : Event ρ} {a : FileAttributes}
    (hren : Renames R w src q e) (hsrc : w.store.entry src.asStr ≠ none)
    (hattrs : (w.step R e).store.getAttrs q = some a) : w.store.getAttrs src = some a := by
  cases e with
  | call call =>
      cases call with
      | rename parent name newParent newName =>
          obtain ⟨⟨_, _, hres⟩, hok⟩ := hren
          have hrename : w.conn.rename R src q = (.ok (), (w.conn.rename R src q).2) :=
            Prod.ext hok rfl
          simp only [step, exec, rename, hres] at hattrs
          rw [hrename] at hattrs
          simp only [Store.getAttrs_eq, Store.entry_invalidateChildren, Store.entry_rename,
            if_pos trivial] at hattrs
          obtain ⟨e, he⟩ := Option.ne_none_iff_exists'.mp hsrc
          rw [Store.getAttrs_eq, he]
          rw [he] at hattrs
          split at hattrs
          · cases hattrs
          · exact hattrs
      | _ => exact absurd hren id
  | _ => exact absurd hren id

/-- The attributes that a read brings: those that `getattr` has for the node. -/
lemma attrs_read {handle : FileHandle} {offset : UInt64} {size : UInt32} {file : OpenFile}
    (h : Outcome R w (.read handle offset size) w') (hfile : w.state.file handle = some file)
    {p : RemotePath} (hp : w.state.path file.node = some p)
    (hnone : w.store.entry file.path.asStr = none) {a : FileAttributes}
    (hattrs : w'.store.getAttrs file.path = some a) :
    ReportedSince w.conn w'.conn p a ∨ w.store.getAttrs p = some a := by
  have hempty : w.store.getAttrs file.path ≠ some a := by
    rw [Store.getAttrs_eq, hnone]
    simp
  -- `getattr` leaves attributes for its own path only
  have hgetattr : ∀ {w₁ : World ρ}, Outcome R w (.getattr file.node) w₁ →
      w₁.store.getAttrs file.path = some a →
      ReportedSince w.conn w₁.conn p a ∨ w.store.getAttrs p = some a := by
    intro w₁ hattr hold
    by_cases hsame : file.path = p
    · rw [hsame] at hold
      exact attrs_outcome hattr (fun _ => False.elim) hold
    · rw [Store.getAttrs_eq, (getattr_frame hattr hp hsame).2] at hold
      exact absurd hold hempty
  cases h with
  | known _ => exact absurd hattrs hempty
  | failed _ _ => exact absurd hattrs hempty
  | readThrough _ _ => exact absurd hattrs hempty
  | readRejected hfile' _ hattr =>
      obtain rfl := Option.some.inj (hfile'.symm.trans hfile)
      exact hgetattr hattr hattrs
  | @readContent _ _ _ _ metadata w₁ hfile' _ hattr hok =>
      obtain rfl := Option.some.inj (hfile.symm.trans hfile')
      have hreads := grows_onlyReads (Store.read_frame (R := R) file.path metadata.attributes offset
        size w₁.store w₁.conn).2
      refine Or.imp_left (fun h => ReportedSince.grow h hreads.extends) ?_
      rcases readFrame_getAttrs (Store.read_frame _ _ _ _ _ _).1 hattrs with hold | ⟨-, -, rfl⟩
      · exact hgetattr hattr hold
      · exact attrs_outcome hattr (fun _ => False.elim) (getattr_ok_entry hp hok)

/-- **Where the attributes come from that a call leaves.** -/
lemma attrs_origin (call : Call) {q : RemotePath} {a : FileAttributes}
    (hattrs : (w.exec R call).store.getAttrs q = some a) :
    ∃ src, ComesFrom R w src q (.call call) ∧
      (ReportedSince w.conn (w.exec R call).conn src a ∨ w.store.getAttrs src = some a) := by
  by_cases hb : ∃ r, Brings R w r q (.call call)
  · obtain ⟨src, hb⟩ := hb
    refine ⟨src, .inl hb, ?_⟩
    cases call with
    | rename parent name newParent newName => exact .inr (attrs_renamed hb.1 hb.2 hattrs)
    | read handle offset size =>
        obtain ⟨file, hfile, rfl, hnone, hp⟩ := hb
        exact attrs_read (outcome_exec R w (.read handle offset size)) hfile hp hnone hattrs
    | _ => exact absurd hb id
  · exact ⟨q, .inr ⟨rfl, fun r hr => hb ⟨r, hr⟩⟩,
      attrs_outcome (outcome_exec R w call) (fun r hr => absurd ⟨r, hr⟩ hb) hattrs⟩

/-! ## After a write -/

/-- The event has written to the file at `path`: `write` through a handle for the path, or an
`open` that truncates it, has returned `Ok`. -/
def Writes (R : RemoteFilesystem ρ) (w : World ρ) (path : RemotePath) : Event ρ → Prop
  | .call (.write handle offset data) =>
      (∃ file, w.state.file handle = some file ∧ file.path = path) ∧
        ∃ written, (w.write R handle offset data).1 = .ok written
  | .call (.openFile node flags) => flags.truncate = true ∧ w.state.path node = some path ∧
      ∃ handle, (w.openFile R node flags).1 = .ok handle
  | _ => False

lemma unconfirmed_of_writes {e : Event ρ} (h : Writes R w path e) :
    (w.step R e).state.validatedAt path = none := by
  cases e with
  | call call =>
      cases call with
      | write handle offset data =>
          obtain ⟨⟨file, hfile, rfl⟩, written, hok⟩ := h
          simp only [step, exec]
          unfold write at hok ⊢
          rw [hfile] at hok ⊢
          cases hwritable : w.ensureWritable with
          | error e => simp [hwritable] at hok
          | ok _ =>
              rcases hcall : w.conn.write R file.path offset data with ⟨e | n, conn⟩
              · simp [hwritable, hcall] at hok
              · simp [hcall, State.validatedAt_unstamp]
      | openFile node flags =>
          obtain ⟨htrunc, hpath, handle, hok⟩ := h
          simp only [step, exec]
          unfold openFile at hok ⊢
          rw [State.pathOf_ok.mpr hpath] at hok ⊢
          simp only [htrunc, Bool.or_true, if_true] at hok ⊢
          cases hwritable : w.ensureWritable with
          | error e => simp [hwritable] at hok
          | ok _ =>
              rcases hcall : w.conn.setattr R path { size := some 0 } with ⟨e | a, conn⟩
              · simp [hwritable, hcall] at hok
              · simp [State.validatedAt_unstamp]
      | _ => exact absurd h id
  | _ => exact absurd h id

/-- A run from a given moment on. -/
structure Dated (ρ : Type) where
  world : World ρ
  /-- The connection at that moment. -/
  begun : Conn ρ
  /-- The paths whose stored attributes have been reported since then. -/
  since : RemotePath → Prop

namespace Dated

variable {x : Dated ρ}

/-- Nothing has been reported yet. -/
def start (w : World ρ) : Dated ρ := ⟨w, w.conn, fun _ => False⟩

/-- Stored attributes are as old as where they come from, unless they have just been reported. -/
def step (R : RemoteFilesystem ρ) (x : Dated ρ) (e : Event ρ) : Dated ρ where
  world := x.world.step R e
  begun := x.begun
  since q := ∃ src, ComesFrom R x.world src q e ∧ (x.since src ∨
    ∃ a, (x.world.step R e).store.getAttrs q = some a ∧
      ReportedSince x.world.conn (x.world.step R e).conn src a)

/-- **What `since` says.**  The attributes of the paths in `since` have been reported since the
run began; those of the others were in the store when it began. -/
structure Follows (w : World ρ) (x : Dated ρ) : Prop where
  begun : x.begun = w.conn
  grows : w.conn.Extends x.world.conn
  durable : x.world.store.Durable
  reported : ∀ q a, x.since q → x.world.store.getAttrs q = some a →
    ∃ p, ReportedSince w.conn x.world.conn p a
  kept : ∀ q a, ¬ x.since q → x.world.store.getAttrs q = some a →
    ∃ p, w.store.getAttrs p = some a

/-- What an event leaves in the store, over a directory that keeps it. -/
lemma attrs_step {w : World ρ} (hd : w.store.Durable) (e : Event ρ) {q : RemotePath}
    {a : FileAttributes} (hattrs : (w.step R e).store.getAttrs q = some a) :
    ∃ src, ComesFrom R w src q e ∧
      (ReportedSince w.conn (w.step R e).conn src a ∨ w.store.getAttrs src = some a) := by
  cases e with
  | call call => exact attrs_origin call hattrs
  | tick d => exact ⟨q, .inr ⟨rfl, fun _ => id⟩, .inr hattrs⟩
  | external remote => exact ⟨q, .inr ⟨rfl, fun _ => id⟩, .inr hattrs⟩
  | restart config =>
      refine ⟨q, .inr ⟨rfl, fun _ => id⟩, .inr ?_⟩
      rwa [Store.getAttrs_eq, ← hd.2.entry_new config.cacheChunkSize]

lemma extends_step (w : World ρ) (e : Event ρ) : w.conn.Extends (w.step R e).conn := by
  cases e with
  | call call => exact (grows_outcome (outcome_exec R w call)).1.extends
  | _ => exact .refl _

lemma Follows.step {w : World ρ} (h : Follows w x) (e : Event ρ) : Follows w (x.step R e) where
  begun := h.begun
  grows := h.grows.trans (extends_step x.world e)
  durable := durable_step x.world e h.durable
  reported q a := by
    rintro ⟨src, hsrc, hsince⟩ hattrs
    rcases hsince with hsince | ⟨b, hb, hreported⟩
    · obtain ⟨src', hsrc', hnew | hold⟩ := attrs_step h.durable e hattrs
      · exact ⟨src', hnew.since h.grows⟩
      · obtain rfl := hsrc.unique hsrc'
        obtain ⟨p, hp⟩ := h.reported src a hsince hold
        exact ⟨p, hp.grow (extends_step x.world e)⟩
    · obtain rfl := Option.some.inj (hattrs.symm.trans hb)
      exact ⟨src, hreported.since h.grows⟩
  kept q a hnot hattrs := by
    obtain ⟨src, hsrc, hnew | hold⟩ := attrs_step h.durable e hattrs
    · exact absurd ⟨src, hsrc, .inr ⟨a, hattrs, hnew⟩⟩ hnot
    · exact h.kept src a (fun hsince => hnot ⟨src, hsrc, .inl hsince⟩) hold

lemma follows_start {w : World ρ} (hd : w.store.Durable) : Follows w (start w) :=
  ⟨rfl, .refl _, hd, fun _ _ => False.elim, fun q _ _ hattrs => ⟨q, hattrs⟩⟩

/-- In every run over a directory that keeps the store, `since` says this. -/
theorem follows_run {w : World ρ} (hd : w.store.Durable) (es : List (Event ρ)) :
    Follows w (run (Dated.step R) (start w) es) := by
  have hstep : ∀ x e, Follows w x → Follows w (Dated.step R x e) := fun _ e h => h.step e
  exact invariant_of_step hstep (follows_start hd) es

/-! ## What is served after a write -/

/-- The store has attributes of `path` from before the run, and the remote has reported none
since. -/
def Outdated (path : RemotePath) (x : Dated ρ) : Prop :=
  x.world.store.getAttrs path ≠ none ∧ ¬ x.since path ∧ Silent path x.begun x.world.conn

/-- What the event gives for `path`, without a report since the run began, is not from before. -/
def NoneOld (R : RemoteFilesystem ρ) (path : RemotePath) (x : Dated ρ) (e : Event ρ) : Prop :=
  ∀ a, Gives R x.world path a e → Silent path x.begun (x.world.step R e).conn → x.since path

/-- The mount is online, and the remote answers a `stat` of the path. -/
def Reaches (R : RemoteFilesystem ρ) (path : RemotePath) (w : World ρ) : Prop :=
  w.offline = false ∧ ∀ m, (R.stat path w.conn.remote).1 ≠ .error (.unavailable m)

/-- A `lookup` or `getattr` of the path reaches the remote, and no listing from the cache names
it. -/
def AsksRemote (R : RemoteFilesystem ρ) (path : RemotePath) (w : World ρ) : Event ρ → Prop
  | .call (.lookup parent name) => w.childPath parent name = .ok path →
      w.freshNegative parent name = true ∨ Reaches R path w
  | .call (.getattr node) => w.state.path node = some path → Reaches R path w
  | .call (.readdir node) => ∀ dir names, CacheServes R w node dir →
      w.store.getChildren dir = some names → ∀ name ∈ names, dir.join name ≠ .ok path
  | _ => True

/-- No `readdir` of the path itself is answered with a listing by the remote. -/
def NotListed (R : RemoteFilesystem ρ) (path : RemotePath) (w : World ρ) (e : Event ρ) : Prop :=
  ∀ node entries, e = .call (.readdir node) → ¬ Fetches R w node path entries

/-- Attributes from before the run are not asked for where the remote is not. -/
def Spares (R : RemoteFilesystem ρ) (path : RemotePath) (x : Dated ρ) (e : Event ρ) : Prop :=
  (x.Outdated path → AsksRemote R path x.world e) ∧
    (Silent path x.begun x.world.conn → NotListed R path x.world e)

/-- Until there is a report, the path is not confirmed. -/
structure Unasked (path : RemotePath) (x : Dated ρ) : Prop where
  grows : x.begun.Extends x.world.conn
  unconfirmed : Silent path x.begun x.world.conn → x.world.state.validatedAt path = none

lemma cacheAnswers_iff (hnone : w.state.validatedAt path = none) :
    w.CacheAnswers R path ↔ ¬ Reaches R path w := by
  have hfresh : w.metadataFresh path = w.offline := by
    rw [metadataFresh, hnone]
    simp
  rw [CacheAnswers, hfresh, Reaches, not_and_or, Bool.not_eq_false, not_forall]
  simp only [ne_eq, not_not]

/-- A path without a confirmation is served from the cache where the remote is not asked. -/
lemma asksRemote_iff (hnone : w.state.validatedAt path = none) (e : Event ρ) :
    AsksRemote R path w e ↔ ¬ Serves R w path e := by
  cases e with
  | call call =>
      cases call with
      | lookup parent name =>
          simp only [AsksRemote, Serves, cacheAnswers_iff hnone]
          cases w.freshNegative parent name <;> simp
      | getattr node => simp [AsksRemote, Serves, cacheAnswers_iff hnone]
      | readdir node =>
          constructor
          · rintro h ⟨dir, names, name, hserves, hnames, hmem, hjoin⟩
            exact h dir names hserves hnames name hmem hjoin
          · exact fun h dir names hserves hnames name hmem hjoin =>
              h ⟨dir, names, name, hserves, hnames, hmem, hjoin⟩
      | _ => simp [AsksRemote, Serves]
  | _ => simp [AsksRemote, Serves]

/-- **Old attributes are given exactly where the remote is not asked.** -/
lemma noneOld_iff (h : Unasked path x) (e : Event ρ) :
    NoneOld R path x e ↔ (x.Outdated path → AsksRemote R path x.world e) := by
  have hsplit : Silent path x.begun (x.world.step R e).conn ↔ _ :=
    Silent.trans_iff h.grows (extends_step x.world e)
  constructor
  · rintro hnone ⟨hstored, hold, hsilent⟩
    rw [asksRemote_iff (h.unconfirmed hsilent)]
    intro hserves
    obtain ⟨a, ha⟩ := Option.ne_none_iff_exists'.mp hstored
    obtain ⟨hgives, hquiet⟩ := (gives_silent_iff e).mpr ⟨hserves, ha⟩
    exact hold (hnone a hgives (hsplit.mpr ⟨hsilent, hquiet⟩))
  · intro hasks a hgives hsilent
    obtain ⟨hsilent, hquiet⟩ := hsplit.mp hsilent
    obtain ⟨hserves, hstored⟩ := (gives_silent_iff e).mp ⟨hgives, hquiet⟩
    by_contra hold
    exact (asksRemote_iff (h.unconfirmed hsilent) e).mp
      (hasks ⟨by rw [hstored]; simp, hold, hsilent⟩) hserves

lemma unasked_step (x : Dated ρ) (e : Event ρ)
    (hlist : Silent path x.begun x.world.conn → NotListed R path x.world e) (h : Unasked path x) :
    Unasked path (x.step R e) where
  grows := h.grows.trans (extends_step x.world e)
  unconfirmed hsilent := by
    obtain ⟨hbefore, hquiet⟩ := (Silent.trans_iff h.grows (extends_step x.world e)).mp hsilent
    have hnone := h.unconfirmed hbefore
    cases e with
    | call call =>
        refine unconfirmed_outcome (outcome_exec R x.world call) hquiet ?_ hnone
        rintro node entries rfl
        exact hlist hbefore node entries rfl
    | tick d => exact hnone
    | external remote => exact hnone
    | restart config => rfl

lemma unasked_start {e : Event ρ} (hwrites : Writes R w path e) :
    Unasked path (start (w.step R e)) :=
  ⟨.refl _, fun _ => unconfirmed_of_writes hwrites⟩

end Dated

/-- **After a write, old attributes are served only where the remote is not asked.**  From the
moment on that a write to the file at `path` returned, with any calls, changes by others and
restarts, nothing gives attributes of `path` from before it until the remote has reported some,
if in each step attributes from before it are not asked for offline, from an unreachable remote or
through a listing from the cache, and the path itself is not listed. -/
theorem old_attrs_not_given {w : World ρ} {e : Event ρ} (hwrites : Writes R w path e)
    (es : List (Event ρ))
    (hspares : AllSteps (Dated.step R) (Dated.Spares R path) (Dated.start (w.step R e)) es) :
    AllSteps (Dated.step R) (Dated.NoneOld R path) (Dated.start (w.step R e)) es :=
  allSteps_of_invariant (fun x e h => Dated.unasked_step x e h.2)
    (fun _ e hs hx => (Dated.noneOld_iff hx e).mpr hs.1) (Dated.unasked_start hwrites) hspares

/-- The root is listed, the file is opened, and a byte is appended. -/
def writeListed : List (Event Memory) :=
  [.call (.readdir .root), .call (.openFile ⟨2⟩ { write := true })]

def appendByte : Event Memory := .call (.write ⟨1⟩ 3 [4])

/-- The listing from the cache still has the size before the write. -/
theorem listing_gives_old_attrs :
    let w := run (step Memory.filesystem) (mount sampleTree 10) writeListed
    let x := Dated.start (w.step Memory.filesystem appendByte)
    Writes Memory.filesystem w pathA appendByte ∧
      Gives Memory.filesystem x.world pathA (Memory.attributes (.file [1, 2, 3] none))
        (.call (.readdir .root)) ∧
      (Memory.filesystem.stat pathA x.world.conn.remote).1 ≠
        .ok (Memory.attributes (.file [1, 2, 3] none)) ∧
      ¬ Dated.NoneOld Memory.filesystem pathA x (.call (.readdir .root)) := by
  have hgives : Gives Memory.filesystem ((run (step Memory.filesystem) (mount sampleTree 10)
      writeListed).step Memory.filesystem appendByte) pathA
      (Memory.attributes (.file [1, 2, 3] none)) (.call (.readdir .root)) :=
    ⟨.root, [⟨['a'], ⟨2⟩, Memory.attributes (.file [1, 2, 3] none)⟩], _, rfl, by decide,
      List.mem_singleton_self _, rfl, rfl⟩
  refine ⟨⟨⟨⟨⟨2⟩, pathA⟩, rfl, rfl⟩, _, rfl⟩, hgives, by decide, fun h => ?_⟩
  exact h _ hgives (Conn.Asked.refl _)

/-- The attributes are asked for again, and the listing has them then. -/
theorem old_attrs_not_given_getattr :
    AllSteps (Dated.step Memory.filesystem) (Dated.NoneOld Memory.filesystem pathA)
      (Dated.start ((run (step Memory.filesystem) (mount sampleTree 10) writeListed).step
        Memory.filesystem appendByte))
      [.call (.getattr ⟨2⟩), .call (.readdir .root)] := by
  have hwrites : Writes Memory.filesystem
      (run (step Memory.filesystem) (mount sampleTree 10) writeListed) pathA appendByte :=
    ⟨⟨⟨⟨2⟩, pathA⟩, rfl, rfl⟩, _, rfl⟩
  refine old_attrs_not_given hwrites _ ⟨⟨fun _ _ => ⟨rfl, ?_⟩, ?_⟩, ⟨fun hold => ?_, ?_⟩, trivial⟩
  · rintro m ⟨⟩
  · rintro - node entries ⟨⟩
  · -- `getattr` has had a report
    exact absurd hold.2.2 (not_silent_record (a := Memory.attributes (.file [1, 2, 3, 4] none))
      ⟨rfl, rfl⟩)
  · rintro - node entries ⟨⟩ hfetch
    exact absurd hfetch.hasPath (by decide)

end World

end CacheShfs
