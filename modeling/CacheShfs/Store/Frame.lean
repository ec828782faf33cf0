import CacheShfs.Store.Sweep

/-!
# Unrelated paths are untouched

An operation of the store is an operation on the entry and the listing of one path.  The
exceptions are `rename`, which has two paths and drops what lies below its source, and a listing,
which writes the children of its path.  `StoreEvent.Touches` names the paths; at every other one
the store answers after the operation what it did before (`operation_frame`).

The index holds the object ids, and the objects are files of their own.  So the frame needs that
no two chunks share an id, and that no operation deletes an object that is referred to.
-/

namespace CacheShfs

open Machine

/-- The paths whose entry or listing an operation may change. -/
def StoreEvent.Touches {ρ : Type} : StoreEvent ρ → Str → Prop
  | .putAttrs path _, key => key = path.asStr
  | .recordListing parent children, key => key = parent.asStr ∨
      ∃ name attrs, (name, attrs) ∈ children ∧ ValidComponent name ∧
        key = childKey parent.asStr name
  | .invalidateContent path, key => key = path.asStr
  | .invalidateChildren path, key => key = path.asStr
  | .remove path, key => key = path.asStr
  | .rename src dst, key => key = src.asStr ∨ key = dst.asStr ∨ Below src.asStr key
  | .read path _ _ _, key => key = path.asStr
  | .readCached _ _ _, _ => False
  | .external _, _ => False

/-! ## Operations of the store -/

namespace Store

/-- A store shows what it did under the keys of `P`. -/
structure Spares (P : Str → Prop) (s s' : Store) : Prop where
  shows : ∀ key, P key → s'.shows key = s.shows key
  listing : ∀ key, P key → s'.listing key = s.listing key

namespace Spares

variable {P : Str → Prop} {s s' : Store}

lemma refl (P : Str → Prop) (s : Store) : s.Spares P s := ⟨fun _ _ => rfl, fun _ _ => rfl⟩

lemma trans {s'' : Store} (h : s.Spares P s') (h' : s'.Spares P s'') : s.Spares P s'' :=
  ⟨fun key hkey => (h'.shows key hkey).trans (h.shows key hkey),
    fun key hkey => (h'.listing key hkey).trans (h.listing key hkey)⟩

lemma ne_of_spared {key key' : Str} (hkey : P key) (hkey' : ¬ P key') : key ≠ key' := by
  rintro rfl
  exact hkey' hkey

/-- An operation that drops content and leaves the entries under `P`. -/
lemma of_shrinks (hs : Kept s) (h : s.Shrinks s')
    (hentry : ∀ key, P key → s'.entry key = s.entry key)
    (hlisting : ∀ key, P key → s'.listing key = s.listing key) : s.Spares P s' where
  shows key hkey := by
    rw [h.shows hs, hentry key hkey]
    rfl
  listing := hlisting

section
variable {path : RemotePath} (hs : Kept s) (hp : ¬ P path.asStr)
include hs hp

lemma putAttrs (attrs : FileAttributes) : s.Spares P (s.putAttrs path attrs) := by
  refine of_shrinks hs (shrinks_putAttrs path attrs s) (fun key hkey => ?_) fun key _ => ?_
  · rw [entry_putAttrs, if_neg (ne_of_spared hkey hp)]
  · rw [listing_putAttrs]

lemma remove : s.Spares P (s.remove path) := by
  refine of_shrinks hs (shrinks_remove path s) (fun key hkey => ?_) fun key hkey => ?_
  · rw [entry_remove, if_neg (ne_of_spared hkey hp)]
  · rw [listing_remove, if_neg (ne_of_spared hkey hp)]

lemma invalidateContent : s.Spares P (s.invalidateContent path) := by
  refine of_shrinks hs (shrinks_invalidateContent path s) (fun key hkey => ?_) fun key _ => ?_
  · rw [entry_invalidateContent, if_neg (ne_of_spared hkey hp)]
  · rw [listing_invalidateContent]

lemma invalidateChildren : s.Spares P (s.invalidateChildren path) := by
  refine of_shrinks hs (shrinks_invalidateChildren path s) (fun key _ => ?_) fun key hkey => ?_
  · rw [entry_invalidateChildren]
  · rw [listing_invalidateChildren, if_neg (ne_of_spared hkey hp)]

lemma recordListing (children : List (Str × FileAttributes))
    (hchildren : ∀ name attrs, (name, attrs) ∈ children → ValidComponent name →
      ¬ P (childKey path.asStr name)) : s.Spares P (s.recordListing path children) := by
  refine of_shrinks hs (shrinks_recordListing path children s) (fun key hkey => ?_)
    fun key hkey => ?_
  · rcases entry_recordListing path children s key with
      ⟨name, attrs, _, hmem, hname, rfl, _⟩ | ⟨_, hsame⟩
    · exact absurd hkey (hchildren name attrs hmem hname)
    · exact hsame
  · rw [listing_recordListing, if_neg (ne_of_spared hkey hp)]

end

/-- A rename of what is not under `P`, with all that lies below it. -/
lemma rename {src dst : RemotePath} (hs : Kept s) (hsrc : ¬ P src.asStr) (hdst : ¬ P dst.asStr)
    (hbelow : ∀ key, Below src.asStr key → ¬ P key) : s.Spares P (s.rename src dst) where
  shows key hkey := by
    rw [hs.shows_rename, entry_rename, if_neg fun h => hbelow key h hkey,
      if_neg (ne_of_spared hkey hdst), if_neg (ne_of_spared hkey hsrc)]
    rfl
  listing key hkey := by
    rw [listing_rename, if_neg fun h => hbelow key h.1 hkey, if_neg (ne_of_spared hkey hdst),
      if_neg (ne_of_spared hkey hsrc)]

end Spares

/-! ## Reads -/

section
variable {ρ : Type} {R : RemoteFilesystem ρ} {s : Store}

/-- A chunk is fetched for one path. -/
lemma Kept.spares_fetchChunk {P : Str → Prop} (hs : Kept s) {path : RemotePath}
    (hp : ¬ P path.asStr) (attrs : FileAttributes) (k : ℕ) (c : Conn ρ) :
    s.Spares P (s.fetchChunk R path attrs k c).2.1 := by
  have hkept := hs.fetchChunk (R := R) path attrs k c
  unfold Store.fetchChunk at hkept ⊢
  simp only at hkept ⊢
  set s₁ := (s.allocObject.2.createTemp s.allocObject.1).2
  set temp := (s.allocObject.2.createTemp s.allocObject.1).1
  have hframe := (download_frame (R := R) path (k * s₁.chunkSize) (s₁.chunkLen attrs k) temp
    (s₁.chunkLen attrs k) 0 s₁ c).1
  generalize download R path (k * s₁.chunkSize) (s₁.chunkLen attrs k) temp
    (s₁.chunkLen attrs k) 0 s₁ c = x at hkept hframe ⊢
  obtain ⟨answer, t, c₁⟩ := x
  simp only at hframe
  obtain ⟨hshown, ht, hfree⟩ := hs.downloading hframe
  cases answer with
  | error e => exact ⟨fun key _ => hshown.shows key, fun key _ => hshown.listing key⟩
  | ok _ =>
      have hinstalled := hshown.trans (hfree.shown_install temp)
      refine ⟨fun key hkey => ?_, fun key _ => ?_⟩
      · rw [Kept.shows_recordChunk hkept, if_neg (Spares.ne_of_spared hkey hp),
          hinstalled.shows]
      · rw [listing_recordChunk, hinstalled.listing]

lemma Kept.spares_fetchMissing {P : Str → Prop} (hs : Kept s) {path : RemotePath}
    (hp : ¬ P path.asStr) (attrs : FileAttributes) (ks : List ℕ) (c : Conn ρ) :
    s.Spares P (fetchMissing R path attrs ks s c).2.1 := by
  induction ks generalizing s c with
  | nil => exact .refl P s
  | cons k ks ih =>
      rw [fetchMissing]
      cases s.cachedChunk path attrs k with
      | some o => exact ih hs c
      | none =>
          have hspares := hs.spares_fetchChunk (R := R) hp attrs k c
          have hkept := hs.fetchChunk (R := R) path attrs k c
          simp only
          generalize s.fetchChunk R path attrs k c = x at hspares hkept ⊢
          obtain ⟨answer, t, c₁⟩ := x
          cases answer with
          | error e => exact hspares
          | ok _ => exact hspares.trans (ih hkept c₁)

lemma Kept.spares_read {P : Str → Prop} (hs : Kept s) {path : RemotePath} (hp : ¬ P path.asStr)
    (attrs : FileAttributes) (offset : UInt64) (size : UInt32) (c : Conn ρ) :
    s.Spares P (s.read R path attrs offset size c).2.1 := by
  rw [Store.read]
  split
  · exact .refl P s
  · have hspares := hs.spares_fetchMissing (R := R) hp attrs
      (chunkRange offset.toNat (readStop offset size attrs.size) s.chunkSize) c
    simp only
    split
    · next heq =>
        rw [heq] at hspares
        exact hspares
    · next heq =>
        rw [heq] at hspares
        exact hspares

end

end Store

/-! ## Answers -/

namespace Store

variable {P : Str → Prop} {s s' : Store}

/-- Two stores answer the same about a path. -/
structure AnswersAlike (path : RemotePath) (s s' : Store) : Prop where
  getAttrs : s'.getAttrs path = s.getAttrs path
  getChildren : s'.getChildren path = s.getChildren path
  readCached : ∀ offset size, s'.readCached path offset size = s.readCached path offset size

lemma Spares.answersAlike (h : s.Spares P s') (hs : Kept s) (hs' : Kept s')
    (hsize : s'.chunkSize = s.chunkSize) {path : RemotePath} (hp : P path.asStr) :
    AnswersAlike path s s' := by
  have hagree : Agree P path.asStr s s' :=
    ⟨hsize, h.shows, fun key hkey _ => h.listing key hkey, by rw [h.listing _ hp]⟩
  exact ⟨hagree.getAttrs hp, h.listing _ hp, hagree.readCached hs hs' hp⟩

/-- The bookkeeping of object ids: a chunk reference is the only one to its object, all ids are
below the counter, and there are no other references. -/
structure OneOwner (s : Store) : Prop where
  legacy : ∀ key c, s.content key = some c → c.object = none
  unique : ∀ key c k key' c' k' o, s.Recorded key c k o → s.Recorded key' c' k' o →
    key = key' ∧ k = k'
  below : ∀ o, s.Referenced o → o < s.index.nextObject

lemma Kept.oneOwner (hs : Kept s) : OneOwner s where
  legacy := hs.legacy
  unique := hs.unique
  below o ho := by
    obtain ⟨key, c, k, hr⟩ := hs.referenced_iff.mp ho
    exact hs.below key c k o hr

end Store

namespace StoreWorld

variable {ρ : Type} {R : RemoteFilesystem ρ}

lemma step_chunkSize (w : StoreWorld ρ) (e : StoreEvent ρ) :
    (w.step R e).store.chunkSize = w.store.chunkSize := by
  cases e with
  | putAttrs path attrs => exact Store.putAttrs_chunkSize path attrs w.store
  | recordListing parent children => exact Store.recordListing_chunkSize parent children w.store
  | invalidateContent path => exact Store.invalidateContent_chunkSize path w.store
  | invalidateChildren path => exact Store.invalidateChildren_chunkSize path w.store
  | remove path => exact Store.remove_chunkSize path w.store
  | rename src dst => exact Store.rename_chunkSize src dst w.store
  | read path attrs offset size =>
      exact (Store.read_frame path attrs offset size w.store w.conn).1.chunkSize
  | readCached path offset size => rfl
  | external remote => rfl

/-- **The frame of an operation**: what it shows of the paths that it does not touch. -/
lemma spares_step (w : StoreWorld ρ) (e : StoreEvent ρ) (hs : w.store.Kept) :
    w.store.Spares (fun key => ¬ e.Touches key) (w.step R e).store := by
  cases e with
  | putAttrs path attrs => exact .putAttrs hs (not_not_intro rfl) attrs
  | recordListing parent children =>
      exact .recordListing hs (not_not_intro (.inl rfl)) children fun name attrs hmem hname =>
        not_not_intro (.inr ⟨name, attrs, hmem, hname, rfl⟩)
  | invalidateContent path => exact .invalidateContent hs (not_not_intro rfl)
  | invalidateChildren path => exact .invalidateChildren hs (not_not_intro rfl)
  | remove path => exact .remove hs (not_not_intro rfl)
  | rename src dst =>
      exact .rename hs (not_not_intro (.inl rfl)) (not_not_intro (.inr (.inl rfl)))
        fun key hbelow => not_not_intro (.inr (.inr hbelow))
  | read path attrs offset size => exact hs.spares_read (not_not_intro rfl) attrs offset size w.conn
  | readCached path offset size => exact .refl _ _
  | external remote => exact .refl _ _

/-- An operation deletes only objects that nothing refers to when it is done. -/
lemma step_unreferenced (w : StoreWorld ρ) (e : StoreEvent ρ) (hs : w.store.Kept) {o : ℕ}
    (ho : FsEffect.removeObject o ∈ w.store.effects (w.step R e).store) :
    (w.step R e).store.Unreferenced o := by
  cases e with
  | putAttrs path attrs => exact (Store.sweeps_putAttrs path attrs w.store).unreferenced hs ho
  | recordListing parent children =>
      exact (Store.sweeps_recordListing parent children w.store).unreferenced hs ho
  | invalidateContent path =>
      exact (Store.sweeps_invalidateContent path w.store).unreferenced hs ho
  | invalidateChildren path =>
      exact (Store.sweeps_invalidateChildren path w.store).unreferenced hs ho
  | remove path => exact (Store.sweeps_remove path w.store).unreferenced hs ho
  | rename src dst =>
      exact (Store.sweeps_rename src dst w.store).unreferenced (hs.move src.asStr dst.asStr) ho
  | read path attrs offset size => exact hs.read_unreferenced path attrs offset size w.conn ho
  | readCached path offset size =>
      have hnone : FsEffect.removeObject o ∈ w.store.effects w.store := ho
      simp at hnone
  | external remote =>
      have hnone : FsEffect.removeObject o ∈ w.store.effects w.store := ho
      simp at hnone

/-- **Unrelated paths are untouched.**  After every run of operations from an empty directory,
over any number of sessions and whatever the remote answers, an operation leaves the answers
about all paths that it does not touch as they were.  No two chunks share an object, all ids are
below the counter, and what an operation deletes is referred to by nothing. -/
theorem operation_frame (chunkSize : UInt64) (conn : Conn ρ) (es : List (SessionEvent ρ))
    (e : StoreEvent ρ) :
    (∀ q : RemotePath, ¬ e.Touches q.asStr →
      Store.AnswersAlike q (run (session R) (start chunkSize conn) es).store
        ((run (session R) (start chunkSize conn) es).step R e).store) ∧
    (run (session R) (start chunkSize conn) es).store.OneOwner ∧
    ∀ o, FsEffect.removeObject o ∈ (run (session R) (start chunkSize conn) es).store.effects
        ((run (session R) (start chunkSize conn) es).step R e).store →
      ¬ ((run (session R) (start chunkSize conn) es).step R e).store.Referenced o := by
  have hw := durable_run (R := R) chunkSize conn es
  set w := run (session R) (start chunkSize conn) es
  have hafter : (w.step R e).store.Kept := (durable_step w e hw).1
  refine ⟨fun q hq => ?_, Store.Kept.oneOwner hw.1, fun o ho href => ?_⟩
  · exact (spares_step w e hw.1).answersAlike hw.1 hafter (step_chunkSize w e) hq
  · obtain ⟨key, c, k, hr⟩ := hafter.referenced_iff.mp href
    exact step_unreferenced w e hw.1 ho key c k hr

end StoreWorld

end CacheShfs
