import CacheShfs.Vfs.Exclusive

/-!
# A mount without freshness

With a metadata TTL of zero nothing counts as confirmed and no negative entry is ever fresh:
every `lookup`, `getattr` and `readdir` asks the remote, whatever the cache holds.  The chunks
are still served from the cache, and they are right because a read first asks for the current
attributes: chunks of another size or modification time are dropped, and the others are pieces of
a file that the remote has shown under the same two (`SeenAt`).

The remote may be changed by others between any two calls.  What is excluded is a read through a
handle whose file has been renamed since it was opened; `Tracked` remembers these.
-/

namespace CacheShfs

open Machine Slice

namespace World

variable {ρ : Type} (R : RemoteFilesystem ρ) (view : ρ → Tree)

/-! ## Runs with renames -/

/-- A successful rename moves the handles on the source and on what lies below it. -/
def MovedBy (w : World ρ) : Event ρ → FileHandle → Prop
  | .call (.rename parent name newParent newName), h => ∃ srcParent dstParent src dst file,
      w.resolveRename parent name newParent newName = .ok (srcParent, dstParent, src, dst) ∧
      (R.rename src dst w.conn.remote).1 = .ok () ∧ w.state.file h = some file ∧
      (file.path = src ∨ Below src.asStr file.path.asStr)
  | _, _ => False

/-- A world, with the handles whose file has been renamed since they were opened. -/
structure Tracked (ρ : Type) where
  world : World ρ
  moved : FileHandle → Prop

def Tracked.step (x : Tracked ρ) (e : Event ρ) : Tracked ρ :=
  ⟨x.world.step R e, fun h => x.moved h ∨ x.world.MovedBy R e h⟩

/-- Among the files that a set of worlds shows at a path, or at two paths of which one has been
renamed to the other, equal size and modification time mean equal content. -/
def Versioned (worlds : World ρ → Prop) (renamed : Str → Str → Prop) : Prop :=
  ∀ w w' p q f f' m, worlds w → worlds w' → Relation.ReflTransGen renamed p q →
    view w.conn.remote p = some (.file f m) → view w'.conn.remote q = some (.file f' m) →
    f.length = f'.length → f = f'

/-- The bytes of chunk `k` under a label: those of a file that one of the worlds shows at the key
or at one it was renamed from. -/
def SeenAt (worlds : World ρ → Prop) (renamed : Str → Str → Prop) (key : Str) (l : Label) (k : ℕ)
    (b : Bytes) : Prop :=
  ∃ w p f m, worlds w ∧ Relation.ReflTransGen renamed p key ∧
    view w.conn.remote p = some (.file f m) ∧ l.size.toNat = f.length ∧ l.modified = m ∧
    b = slice f (k * l.chunkSize) (k * l.chunkSize + l.chunkSize)

variable {R view} {worlds : World ρ → Prop} {renamed : Str → Str → Prop}

/-- Under the label of a file that is shown, only pieces of this file can be recorded. -/
lemma seenAt_iff (hv : Versioned view worlds renamed) {w : World ρ} (hw : worlds w) {key : Str}
    {f : Bytes} {m : Option Int} (hview : view w.conn.remote key = some (.file f m))
    {attrs : FileAttributes} (hdesc : Describes attrs (.file f m)) (cs k : ℕ) (b : Bytes) :
    SeenAt view worlds renamed key (attrs.label cs) k b ↔ b = slice f (k * cs) (k * cs + cs) := by
  obtain ⟨-, hsize, hm⟩ := hdesc
  constructor
  · rintro ⟨w', p, f', m', hw', hlink, hview', hsize', hm', rfl⟩
    obtain rfl : m' = m := hm'.symm.trans hm
    have hlen : f'.length = f.length := hsize'.symm.trans hsize
    rw [← hv w' w p key f' f m' hw' hw hlink hview' hview hlen]
    rfl
  · rintro rfl
    exact ⟨w, key, f, m, hw, .refl, hview, hsize, hm, rfl⟩

/-! ## The invariant -/

/-- What holds in every state of a run without freshness. -/
structure Unconfirmed (view : ρ → Tree) (worlds : World ρ → Prop) (renamed : Str → Str → Prop)
    (x : Tracked ρ) : Prop where
  wf : x.world.state.Wf
  mode : x.world.config.cacheMode = .onDemand
  ttl : x.world.config.metadataTtl = 0
  handles : HandlesFollow x.moved x.world.state
  content : x.world.store.Sound (SeenAt view worlds renamed)

namespace Unconfirmed

variable {x : Tracked ρ}

lemma online (h : Unconfirmed view worlds renamed x) : x.world.offline = false := by
  simp [offline, h.mode]

/-- Nothing is fresh. -/
lemma not_fresh (h : Unconfirmed view worlds renamed x) (path : RemotePath) :
    x.world.metadataFresh path = false := by
  rw [← Bool.not_eq_true, metadataFresh_iff h.online]
  rintro ⟨t, -, hage⟩
  rw [h.ttl] at hage
  exact Nat.not_lt_zero _ hage

lemma freshAttrs (h : Unconfirmed view worlds renamed x) (path : RemotePath) :
    x.world.freshAttrs path = none := by
  simp [World.freshAttrs, h.not_fresh path]

lemma getattr_eq (h : Unconfirmed view worlds renamed x) {node : NodeId} {path : RemotePath}
    (hpath : x.world.state.path node = some path) :
    x.world.getattr R node = x.world.getattrRemote R node path := by
  simp [getattr, State.pathOf_ok.mpr hpath, h.freshAttrs, h.online]

lemma readdir_eq (h : Unconfirmed view worlds renamed x) {node : NodeId} {path : RemotePath}
    (hpath : x.world.state.path node = some path) :
    x.world.readdir R node = x.world.readdirRemote R path := by
  simp [readdir, State.pathOf_ok.mpr hpath, h.not_fresh, h.online]

/-- The attributes that `getattr` returns describe what is there now. -/
lemma getattr_describes (hA : StatsTree R view) (h : Unconfirmed view worlds renamed x)
    {node : NodeId} {path : RemotePath} (hpath : x.world.state.path node = some path)
    {metadata : FileMetadata} {w' : World ρ}
    (hok : x.world.getattr R node = (.ok metadata, w')) :
    ∃ n, view x.world.conn.remote path.asStr = some n ∧ Describes metadata.attributes n := by
  have hquote := getattrRemote_quotes x.world node path (stat_reachable hA path _)
  rw [h.getattr_eq hpath] at hok
  rw [hok] at hquote
  cases hn : view x.world.conn.remote path.asStr with
  | none =>
      rw [hA.stat_none _ _ hn] at hquote
      cases hquote
  | some n =>
      obtain ⟨attrs, hattrs, hdesc⟩ := hA.stat_some _ _ _ hn
      rw [hattrs] at hquote
      cases hquote
      exact ⟨n, rfl, hdesc⟩

end Unconfirmed

/-! ## Steps -/

/-- What is assumed of the events: the session goes on, a read goes through a handle whose file
has not been renamed since, and the offsets of the file's chunks are in range. -/
def ReadsInPlace (view : ρ → Tree) (x : Tracked ρ) : Event ρ → Prop
  | .call (.read handle _ _) => ¬ x.moved handle ∧ ∀ file f m,
      x.world.state.file handle = some file →
      view x.world.conn.remote file.path.asStr = some (.file f m) →
      f.length + x.world.store.chunkSize < 2 ^ 64
  | .restart _ => False
  | _ => True

/-- `getattr` changes nothing at the remote. -/
lemma getattr_view (hA : StatsTree R view) (w : World ρ) (node : NodeId) :
    view (w.getattr R node).2.conn.remote = view w.conn.remote := by
  unfold getattr
  split
  · rfl
  · next path _ =>
      split
      · rfl
      · split
        · rfl
        · rw [getattrRemote_conn]
          exact hA.view_stat path _

lemma getattr_chunkSize (w : World ρ) (node : NodeId) :
    (w.getattr R node).2.store.chunkSize = w.store.chunkSize := by
  unfold getattr
  split
  · rfl
  · split
    · rfl
    · split
      · rfl
      · unfold getattrRemote
        split
        · exact Store.putAttrs_chunkSize _ _ _
        · exact Store.remove_chunkSize _ _
        · split
          · split <;> rfl
          · rfl

/-- The read of an on-demand mount without freshness. -/
lemma Unconfirmed.readContent_ok (hA : StatsTree R view) (hv : Versioned view worlds renamed)
    {x : Tracked ρ} (h : Unconfirmed view worlds renamed x) (hx : worlds x.world)
    {file : OpenFile} (hpath : x.world.state.path file.node = some file.path) {f : Bytes}
    {m : Option Int} (hf : view x.world.conn.remote file.path.asStr = some (.file f m))
    {metadata : FileMetadata} {w' : World ρ}
    (hok : x.world.getattr R file.node = (.ok metadata, w'))
    (hsound : w'.store.Sound (SeenAt view worlds renamed))
    (hlt : f.length + w'.store.chunkSize < 2 ^ 64) (offset : UInt64) (size : UInt32) :
    ∃ s' c', w'.store.read R file.path metadata.attributes offset size w'.conn =
        (.ok (Store.requested f offset size), s', c') ∧
      s'.Sound (SeenAt view worlds renamed) := by
  obtain ⟨n, hn, hdesc⟩ := h.getattr_describes hA hpath hok
  rw [hf] at hn
  cases hn
  have hview := getattr_view hA x.world file.node
  rw [hok] at hview
  obtain ⟨s', c', heq, hs', -⟩ := Store.read_ok hA.toHonestReads hsound
    ((congrFun hview _).trans hf) hdesc.2.1
    (fun k b => seenAt_iff hv hx hf hdesc w'.store.chunkSize k b)
    (Store.noOverflow_of_add_lt hlt) offset size
  exact ⟨s', c', heq, hs'⟩

/-- Every call keeps the chunk invariant. -/
lemma Unconfirmed.content_outcome (hA : StatsTree R view) (hv : Versioned view worlds renamed)
    {x : Tracked ρ} (h : Unconfirmed view worlds renamed x) (hx : worlds x.world) {call : Call}
    {w' : World ρ} (hout : Outcome R x.world call w')
    (hren : ∀ parent name newParent newName srcParent dstParent src dst,
      call = .rename parent name newParent newName →
      x.world.resolveRename parent name newParent newName =
        .ok (srcParent, dstParent, src, dst) →
      (R.rename src dst x.world.conn.remote).1 = .ok () → renamed src.asStr dst.asStr)
    (hread : ReadsInPlace view x (.call call)) :
    w'.store.Sound (SeenAt view worlds renamed) := by
  have hs := h.content
  induction hout with
  | lookupFound _ _ _ _ _ => exact hs.putAttrs _ _
  | lookupMissing _ _ _ => exact hs.remove _
  | getattrFound _ _ _ _ => exact hs.putAttrs _ _
  | getattrMissing _ _ _ => exact hs.remove _
  | listed _ _ _ _ _ => exact hs.recordListing _ _
  | listedPartly _ _ _ _ _ => exact hs.recordListing _ _
  | truncated _ _ _ => exact hs.invalidateContent _
  | readRejected _ _ _ ih => exact ih (fun _ _ _ _ _ _ _ _ heq => (by cases heq)) trivial
  | @readContent handle offset size file metadata w' hfile _ hattr hok ih =>
      have hmid := ih (fun _ _ _ _ _ _ _ _ heq => (by cases heq)) trivial
      have hpath := h.handles handle file hfile hread.1
      have hview := getattr_view hA x.world file.node
      rw [hok] at hview
      by_cases hf : ∃ f m, view x.world.conn.remote file.path.asStr = some (.file f m)
      · obtain ⟨f, m, hf⟩ := hf
        have hsize : w'.store.chunkSize = x.world.store.chunkSize := by
          have hkeep := getattr_chunkSize (R := R) x.world file.node
          rwa [hok] at hkeep
        obtain ⟨s', c', heq, hs'⟩ := h.readContent_ok hA hv hx hpath hf hok hmid
          (by rw [hsize]; exact hread.2 file f m hfile hf) offset size
        rw [heq]
        exact hs'
      · refine (Store.read_no_file hA metadata.attributes hmid (fun f m hfm => hf ⟨f, m, ?_⟩)
          offset size).1
        rw [← hview]
        exact hfm
  | wrote _ _ => exact hs.invalidateContent _
  | created _ _ _ => exact (hs.putAttrs _ _).invalidateChildren _
  | madeDir _ _ => exact (hs.putAttrs _ _).invalidateChildren _
  | unlinked _ _ => exact (hs.remove _).invalidateChildren _
  | removedDir _ _ => exact (hs.remove _).invalidateChildren _
  | renamed hres hrename =>
      have hlink := hren _ _ _ _ _ _ _ _ rfl hres (Conn.rename_eq hrename).1
      refine Store.Sound.invalidateChildren (Store.Sound.invalidateChildren ?_ _) _
      refine hs.rename ?_ (fun _ _ _ _ _ hG => hG) (fun _ _ _ _ _ _ _ _ hG => hG)
      -- the chunks come to a path that the source was renamed to
      rintro c k b - ⟨w, p, f, m, hw, hp, hrest⟩
      exact ⟨w, p, f, m, hw, hp.tail hlink, hrest⟩
  | setattrDone _ _ _ => exact hs.putAttrs _ _
  | _ => exact hs

lemma Unconfirmed.step (hA : StatsTree R view) (hv : Versioned view worlds renamed) (x : Tracked ρ)
    (e : Event ρ)
    (hcond : ReadsInPlace view x e ∧ worlds x.world ∧
      ∀ parent name newParent newName srcParent dstParent src dst,
        e = .call (.rename parent name newParent newName) →
        x.world.resolveRename parent name newParent newName =
          .ok (srcParent, dstParent, src, dst) →
        (R.rename src dst x.world.conn.remote).1 = .ok () → renamed src.asStr dst.asStr)
    (h : Unconfirmed view worlds renamed x) : Unconfirmed view worlds renamed (x.step R e) := by
  obtain ⟨hread, hx, hren⟩ := hcond
  cases e with
  | call call =>
      have hout := outcome_exec R x.world call
      have hconfig := (grows_outcome hout).2
      refine ⟨wf_outcome hout h.wf, ?_, ?_, ?_, ?_⟩
      · exact (congrArg Config.cacheMode hconfig).trans h.mode
      · exact (congrArg Config.metadataTtl hconfig).trans h.ttl
      · refine handlesFollow_outcome hout h.wf (fun _ => .inl) ?_ h.handles
        rintro parent name newParent newName srcParent dstParent src dst rfl hres hok - n - hd f
          hf - hpath
        exact .inr ⟨srcParent, dstParent, src, dst, f, hres, hok, hf, .inl hpath⟩
      · refine h.content_outcome hA hv hx hout ?_ hread
        rintro parent name newParent newName srcParent dstParent src dst rfl
        exact hren _ _ _ _ _ _ _ _ rfl
  | tick d =>
      refine ⟨h.wf, h.mode, h.ttl, ?_, h.content⟩
      exact h.handles.mono (fun _ => .inl) (fun _ => rfl) fun _ _ => id
  | external remote =>
      refine ⟨h.wf, h.mode, h.ttl, ?_, h.content⟩
      exact h.handles.mono (fun _ => .inl) (fun _ => rfl) fun _ _ => id
  | restart config => exact hread.elim

end World

end CacheShfs
