import CacheShfs.Store.Frame
import CacheShfs.Vfs.Isolation

/-!
# What a mount leaves alone

A mount writes to its cache directory for paths at or below its root only.  So whatever it does,
the directory shows what it did for every other path (`spares_run`), and a mount of a root that
lies apart finds what it would have found (`Disk.sameBelow_of_apart`).

The paths that an operation of the store touches are those of `StoreEvent.Touches`; the calls of
a mount name paths at or below the root only, and what lies below the source of a rename, or in
a listed directory, lies below the root too.
-/

namespace CacheShfs

open Machine

/-! ## Calls and runs -/

namespace World

variable {ρ : Type} {R : RemoteFilesystem ρ} {w w' : World ρ}

/-- The keys that a mount of `root` leaves alone. -/
abbrev Outside (root : Str) : Str → Prop := fun key => ¬ AtOrBelow root key

lemma Within.node_inside (hw : Within w) {n : NodeId} {p : RemotePath}
    (hp : w.state.path n = some p) : ¬ Outside w.config.root.asStr p.asStr :=
  not_not_intro (hw.nodes n p hp).underRoot.atOrBelow

lemma Within.file_inside (hw : Within w) {h : FileHandle} {f : OpenFile}
    (hf : w.state.file h = some f) : ¬ Outside w.config.root.asStr f.path.asStr :=
  not_not_intro (hw.files h f hf).underRoot.atOrBelow

lemma Within.child_inside (hw : Within w) {n : NodeId} {p child : RemotePath} {name : Str}
    (hp : w.state.path n = some p) (hjoin : p.join name = .ok child) :
    ¬ Outside w.config.root.asStr child.asStr :=
  not_not_intro ((hw.nodes n p hp).join hjoin).underRoot.atOrBelow

lemma Within.listed_inside (hw : Within w) {n : NodeId} {p : RemotePath}
    (hp : w.state.path n = some p) (name : Str) (hname : ValidComponent name) :
    ¬ Outside w.config.root.asStr (childKey p.asStr name) :=
  not_not_intro ((hw.nodes n p hp).child hname).underRoot.atOrBelow

/-- **What a call leaves alone.** -/
lemma spares_outcome {call : Call} (h : Outcome R w call w') (hw : Within w)
    (hd : w.store.Durable) : w.store.Spares (Outside w.config.root.asStr) w'.store := by
  induction h with
  | lookupFound _ hchild _ _ _ =>
      obtain ⟨path, hpath, hjoin⟩ := childPath_ok.mp hchild
      exact .putAttrs hd.1 (hw.child_inside hpath hjoin) _
  | lookupMissing _ hchild _ =>
      obtain ⟨path, hpath, hjoin⟩ := childPath_ok.mp hchild
      exact .remove hd.1 (hw.child_inside hpath hjoin)
  | getattrFound _ hpath _ _ => exact .putAttrs hd.1 (hw.node_inside hpath) _
  | getattrMissing _ hpath _ => exact .remove hd.1 (hw.node_inside hpath)
  | listed _ hpath _ _ _ =>
      exact .recordListing hd.1 (hw.node_inside hpath) _
        fun _ _ _ => hw.listed_inside hpath _
  | listedPartly _ hpath _ _ _ =>
      exact .recordListing hd.1 (hw.node_inside hpath) _
        fun _ _ _ => hw.listed_inside hpath _
  | truncated _ hpath _ => exact .invalidateContent hd.1 (hw.node_inside hpath)
  | readRejected _ _ _ ih => exact ih
  | readContent hfile _ hattr _ ih =>
      exact ih.trans (Store.Kept.spares_read (durable_outcome hattr hd).1 (hw.file_inside hfile)
        _ _ _ _)
  | wrote hfile _ => exact .invalidateContent hd.1 (hw.file_inside hfile)
  | created hres _ _ =>
      obtain ⟨hparent, hjoin⟩ := resolve_ok hres
      exact (Store.Spares.putAttrs hd.1 (hw.child_inside hparent hjoin) _).trans
        (.invalidateChildren (hd.1.putAttrs _ _) (hw.node_inside hparent))
  | madeDir hres _ =>
      obtain ⟨hparent, hjoin⟩ := resolve_ok hres
      exact (Store.Spares.putAttrs hd.1 (hw.child_inside hparent hjoin) _).trans
        (.invalidateChildren (hd.1.putAttrs _ _) (hw.node_inside hparent))
  | unlinked hres _ =>
      obtain ⟨hparent, hjoin⟩ := resolve_ok hres
      exact (Store.Spares.remove hd.1 (hw.child_inside hparent hjoin)).trans
        (.invalidateChildren (hd.1.remove _) (hw.node_inside hparent))
  | removedDir hres _ =>
      obtain ⟨hparent, hjoin⟩ := resolve_ok hres
      exact (Store.Spares.remove hd.1 (hw.child_inside hparent hjoin)).trans
        (.invalidateChildren (hd.1.remove _) (hw.node_inside hparent))
  | @renamed _ _ _ _ srcParent dstParent src dst _ hres _ =>
      obtain ⟨hsrcParent, hdstParent, hsrc, hdst⟩ := resolveRename_ok hres
      have hkept := Store.kept_rename hd.1 src dst
      have hmoved : w.store.Spares (Outside w.config.root.asStr) (w.store.rename src dst) :=
        .rename hd.1 (hw.child_inside hsrcParent hsrc) (hw.child_inside hdstParent hdst)
          fun key hkey => not_not_intro
            (((hw.nodes _ _ hsrcParent).join hsrc).underRoot.atOrBelow.of_below hkey)
      exact (hmoved.trans (.invalidateChildren hkept (hw.node_inside hsrcParent))).trans
        (.invalidateChildren (hkept.invalidateChildren srcParent) (hw.node_inside hdstParent))
  | setattrDone _ hpath _ => exact .putAttrs hd.1 (hw.node_inside hpath) _
  | _ => exact .refl _ _

/-- A session of `config` that has started with the store `s`. -/
structure Sparing (config : Config) (s : Store) (w : World ρ) : Prop where
  config_eq : w.config = config
  within : Within w
  durable : w.store.Durable
  spares : s.Spares (Outside config.root.asStr) w.store

lemma Sparing.step {config : Config} {s : Store} (h : Sparing config s w) (e : Event ρ)
    (he : InSession e) : Sparing config s (w.step R e) := by
  obtain ⟨rfl, hw, hd, hspares⟩ := h
  cases e with
  | call call =>
      have houtcome := outcome_exec R w call
      exact ⟨(grows_outcome houtcome).2, within_outcome houtcome hw, durable_outcome houtcome hd,
        hspares.trans (spares_outcome houtcome hw hd)⟩
  | tick d => exact ⟨rfl, ⟨hw.nodes, hw.files⟩, hd, hspares⟩
  | external remote => exact ⟨rfl, ⟨hw.nodes, hw.files⟩, hd, hspares⟩
  | restart config => cases he

/-- **What a session leaves alone.** -/
theorem spares_run (config : Config) {d : Disk} (hd : d.Left) (conn : Conn ρ) {es : List (Event ρ)}
    (hes : ∀ e ∈ es, InSession e) :
    (World.new config d conn).store.Spares (Outside config.root.asStr)
      (run (step R) (World.new config d conn) es).store := by
  have hstart : Sparing config (World.new config d conn).store (World.new config d conn) :=
    ⟨rfl, within_new config d conn, hd.reopens config.cacheChunkSize, .refl _ _⟩
  have hend : Sparing config (World.new config d conn).store
      (run (step R) (World.new config d conn) es) :=
    invariant (fun _ e he h => h.step e he) hstart (allSteps_of_forall hes)
  exact hend.spares

end World

/-! ## Directories -/

/-- What a synced store shows is in its directory. -/
lemma Store.Synced.shows_disk {s : Store} (h : s.Synced) (key : Str) :
    s.disk.shows key = s.shows key := by
  rw [Store.shows, ← h.entry key]
  rfl

/-- **A session leaves the directory as it was for every root that lies apart from its own.** -/
theorem Disk.sameBelow_of_apart {ρ : Type} {R : RemoteFilesystem ρ} (config : Config) {d : Disk}
    (hd : d.Left) (conn : Conn ρ) {es : List (Event ρ)} (hes : ∀ e ∈ es, World.InSession e)
    {root : Str} (hapart : Apart config.root.asStr root) :
    Disk.SameBelow root d (run (World.step R) (World.new config d conn) es).store.disk := by
  have hspares := World.spares_run (R := R) config hd conn hes
  have hsynced := (World.kept_run_of_reopens (R := R) hd.reopens config conn es).1.2
  have houtside : ∀ key, Descends root key → World.Outside config.root.asStr key :=
    fun key hkey hinside => hapart.not_atOrBelow hinside hkey.underRoot.atOrBelow
  have hlisting : ∀ key, Descends root key →
      (run (World.step R) (World.new config d conn) es).store.disk.listing key = d.listing key :=
    fun key hkey => (hsynced.listing key).trans (hspares.listing key (houtside key hkey))
  refine ⟨fun key hkey => ?_, fun key hkey _ => hlisting key hkey, ?_⟩
  · rw [hsynced.shows_disk]
    exact hspares.shows key (houtside key hkey)
  · rw [hlisting root .root]

end CacheShfs
