import CacheShfs.Store.Reopen

/-!
# What a store shows

Everything that a mount can learn from its store about a path: the attributes of the entry, and
the label and the bytes of the chunks of its content (`Store.shows`), and the listing.  Object ids
are not part of it.

Two stores that show the same under a set of keys (`Agree`) answer alike about the paths of that
set, and every operation on such a path makes them show the same again, whatever else is in them.
-/

namespace CacheShfs

/-- The bytes of a chunk, where it is recorded. -/
def ContentRef.bytes (object : ℕ → Option Bytes) (c : ContentRef) (k : ℕ) : Option Bytes :=
  (c.chunks.lookup k).bind object

/-- The label of a content reference and the bytes of its chunks. -/
def ContentRef.shows (object : ℕ → Option Bytes) (c : ContentRef) :
    Label × (ℕ → Option Bytes) := (c.label, c.bytes object)

/-- The attributes of an entry, and what its content shows. -/
def Entry.shows (object : ℕ → Option Bytes) (e : Entry) :
    StoredAttrs × Option (Label × (ℕ → Option Bytes)) :=
  (e.attrs, e.content.map (ContentRef.shows object))

/-- A listing that can be served: all its names are path components. -/
def usable (names : Option (List Str)) : Option (List Str) :=
  names.filter fun names => names.all fun name => decide (ValidComponent name)

namespace Store

/-- What a store shows under a key. -/
def shows (s : Store) (key : Str) : Option (StoredAttrs × Option (Label × (ℕ → Option Bytes))) :=
  (s.entry key).map (Entry.shows s.object)

/-- Two stores show the same under the keys of `P`.  A listing that cannot be served makes no
difference at `root`, which no rename moves. -/
structure Agree (P : Str → Prop) (root : Str) (s s' : Store) : Prop where
  chunkSize : s'.chunkSize = s.chunkSize
  shows : ∀ key, P key → s'.shows key = s.shows key
  listing : ∀ key, P key → key ≠ root → s'.listing key = s.listing key
  rootListing : usable (s'.listing root) = usable (s.listing root)

/-- The bookkeeping of objects, whatever their bytes. -/
abbrev Kept (s : Store) : Prop := s.Sound fun _ _ _ _ => True

variable {P : Str → Prop} {root : Str} {s s' : Store}

/-! ## What is shown after an operation -/

/-- An operation that only deletes objects shows the bytes of what it keeps. -/
lemma Kept.shows_of_deletes (hs' : Kept s')
    (hobject : ∀ o, s'.object o = s.object o ∨ s'.object o = none) (key : Str) :
    s'.shows key = (s'.entry key).map (Entry.shows s.object) := by
  rw [shows]
  cases he : s'.entry key with
  | none => rfl
  | some e =>
      cases hc : e.content with
      | none => simp [Entry.shows, hc]
      | some c =>
          have hbytes : c.bytes s'.object = c.bytes s.object := by
            funext k
            cases hk : c.chunks.lookup k with
            | none => simp [ContentRef.bytes, hk]
            | some o =>
                have hcontent : s'.content key = some c := by rw [content, he]; exact hc
                obtain ⟨b, hb, -⟩ := hs'.good key c k o ⟨hcontent, hk⟩
                rcases hobject o with hsame | hnone
                · simp [ContentRef.bytes, hk, hsame]
                · cases hb.symm.trans hnone
          simp [Entry.shows, ContentRef.shows, hc, hbytes]

/-- The same of the operations that drop content. -/
lemma Shrinks.shows (h : s.Shrinks s') (hs : Kept s) (key : Str) :
    s'.shows key = (s'.entry key).map (Entry.shows s.object) := by
  refine Kept.shows_of_deletes (hs.shrinks h) (fun o => ?_) key
  obtain ⟨orphans, -, hobject⟩ := h
  rw [hobject]
  split
  · exact .inr rfl
  · exact .inl rfl

lemma kept_rename (hs : Kept s) (src dst : RemotePath) : Kept (s.rename src dst) :=
  hs.rename (fun _ _ _ _ _ => trivial) (fun _ _ _ _ _ _ => trivial)
    fun _ _ _ _ _ _ _ _ _ => trivial

/-- The same of a rename, which moves content and drops some. -/
lemma Kept.shows_rename (hs : Kept s) (src dst : RemotePath) (key : Str) :
    (s.rename src dst).shows key = ((s.rename src dst).entry key).map (Entry.shows s.object) := by
  refine Kept.shows_of_deletes (kept_rename hs src dst) (fun o => ?_) key
  rcases object_rename src dst o with hsame | ⟨hnone, -⟩
  · exact .inl hsame
  · exact .inr hnone

/-- What is shown determines what `store_attrs` keeps. -/
lemma shows_kept {obj obj' : ℕ → Option Bytes} {e e' : Option Entry}
    (h : e'.map (Entry.shows obj') = e.map (Entry.shows obj)) (attrs : FileAttributes) :
    (keptContent attrs e').map (ContentRef.shows obj') =
      (keptContent attrs e).map (ContentRef.shows obj) := by
  have hcontent : (e'.bind Entry.content).map (ContentRef.shows obj') =
      (e.bind Entry.content).map (ContentRef.shows obj) := by
    cases e <;> cases e' <;> simp_all [Entry.shows]
  unfold keptContent
  cases hc : e.bind Entry.content with
  | none =>
      rw [hc] at hcontent
      rw [Option.map_eq_none_iff.mp hcontent]
      rfl
  | some c =>
      rw [hc] at hcontent
      obtain ⟨c', hc', hshows⟩ := Option.map_eq_some_iff.mp hcontent
      rw [hc']
      have hlabel : c'.label = c.label := congrArg Prod.fst hshows
      have hstale : c'.StaleFor attrs ↔ c.StaleFor attrs := by
        simp only [ContentRef.label, Label.mk.injEq] at hlabel
        rw [ContentRef.StaleFor, ContentRef.StaleFor, hlabel.1, hlabel.2.1]
      simp only [hstale]
      split
      · rfl
      · exact congrArg some hshows

/-- The loop of `record_listing`, over two indexes that show the same. -/
lemma shows_storeChildren {obj obj' : ℕ → Option Bytes} (parent : RemotePath)
    (hP : ∀ name, ValidComponent name → P (childKey parent.asStr name))
    (children : List (Str × FileAttributes)) (i i' : Index) (os os' : List ℕ)
    (h : ∀ key, P key → (i'.entries.lookup key).map (Entry.shows obj') =
      (i.entries.lookup key).map (Entry.shows obj)) (key : Str) (hkey : P key) :
    ((i'.storeChildren parent children os').1.entries.lookup key).map (Entry.shows obj') =
      ((i.storeChildren parent children os).1.entries.lookup key).map (Entry.shows obj) := by
  induction children generalizing i i' os os' with
  | nil => exact h key hkey
  | cons child children ih =>
      obtain ⟨name, attrs⟩ := child
      rw [Index.storeChildren_cons, Index.storeChildren_cons]
      split
      · next hvalid =>
          refine ih _ _ _ _ fun k hk => ?_
          rw [Index.storeAttrs_lookup, Index.storeAttrs_lookup]
          split
          · simp only [Option.map_some, Entry.shows, shows_kept (h _ (hP name hvalid)) attrs]
          · exact h k hk
      · exact ih _ _ _ _ h

/-! ## Operations on stores that agree -/

namespace Agree

lemma refl (P : Str → Prop) (root : Str) (s : Store) : Agree P root s s :=
  ⟨rfl, fun _ _ => rfl, fun _ _ _ => rfl, rfl⟩

/-- Entries that are the same function of what was shown. -/
lemma of_shrinks {t t' : Store} (h : Agree P root s s') (hs : Kept s) (hs' : Kept s')
    (ht : s.Shrinks t) (ht' : s'.Shrinks t') (hsize : t.chunkSize = s.chunkSize)
    (hsize' : t'.chunkSize = s'.chunkSize)
    (hentry : ∀ key, P key → (t'.entry key).map (Entry.shows s'.object) =
      (t.entry key).map (Entry.shows s.object))
    (hlisting : ∀ key, P key → key ≠ root → t'.listing key = t.listing key)
    (hroot : usable (t'.listing root) = usable (t.listing root)) : Agree P root t t' where
  chunkSize := by rw [hsize', hsize, h.chunkSize]
  shows key hkey := by rw [ht'.shows hs', ht.shows hs, hentry key hkey]
  listing := hlisting
  rootListing := hroot

lemma getAttrs (h : Agree P root s s') {path : RemotePath} (hp : P path.asStr) :
    s'.getAttrs path = s.getAttrs path := by
  have hfst : ∀ t : Store, t.getAttrs path =
      (t.shows path.asStr).map fun shown => shown.1.toAttributes := fun t => by
    rw [getAttrs_eq, Store.shows, Option.map_map]
    rfl
  rw [hfst, hfst, h.shows _ hp]

lemma usable_listing (h : Agree P root s s') {key : Str} (hkey : P key) :
    usable (s'.listing key) = usable (s.listing key) := by
  by_cases hroot : key = root
  · rw [hroot]
    exact h.rootListing
  · rw [h.listing key hkey hroot]

section
variable (h : Agree P root s s') (hs : Kept s) (hs' : Kept s') {path : RemotePath}
include h hs hs'

lemma putAttrs (hp : P path.asStr) (attrs : FileAttributes) :
    Agree P root (s.putAttrs path attrs) (s'.putAttrs path attrs) := by
  refine h.of_shrinks hs hs' (shrinks_putAttrs path attrs s) (shrinks_putAttrs path attrs s')
    (putAttrs_chunkSize _ _ _) (putAttrs_chunkSize _ _ _) (fun key hkey => ?_)
    (fun key hkey hroot => ?_) ?_
  · rw [entry_putAttrs, entry_putAttrs]
    split
    · simp only [Option.map_some, Entry.shows, shows_kept (h.shows _ hp) attrs]
    · exact h.shows key hkey
  · rw [listing_putAttrs, listing_putAttrs, h.listing key hkey hroot]
  · rw [listing_putAttrs, listing_putAttrs, h.rootListing]

lemma recordListing (hchildren : ∀ name, ValidComponent name → P (childKey path.asStr name))
    (children : List (Str × FileAttributes)) :
    Agree P root (s.recordListing path children) (s'.recordListing path children) := by
  refine h.of_shrinks hs hs' (shrinks_recordListing path children s)
    (shrinks_recordListing path children s') (recordListing_chunkSize _ _ _)
    (recordListing_chunkSize _ _ _) (fun key hkey => ?_) (fun key hkey hroot => ?_) ?_
  · have hentry : ∀ t : Store, (t.recordListing path children).entry key =
        (t.index.storeChildren path children []).1.entries.lookup key := fun t => by
      simp [Store.recordListing, entry]
    rw [hentry, hentry]
    exact shows_storeChildren path hchildren children s.index s'.index [] [] h.shows key hkey
  · rw [listing_recordListing, listing_recordListing, h.listing key hkey hroot]
  · rw [listing_recordListing, listing_recordListing]
    split
    · rfl
    · exact h.rootListing

lemma remove : Agree P root (s.remove path) (s'.remove path) := by
  refine h.of_shrinks hs hs' (shrinks_remove path s) (shrinks_remove path s')
    (remove_chunkSize _ _) (remove_chunkSize _ _) (fun key hkey => ?_)
    (fun key hkey hroot => ?_) ?_
  · rw [entry_remove, entry_remove]
    split
    · rfl
    · exact h.shows key hkey
  · rw [listing_remove, listing_remove, h.listing key hkey hroot]
  · rw [listing_remove, listing_remove]
    split
    · rfl
    · exact h.rootListing

lemma invalidateContent (hp : P path.asStr) :
    Agree P root (s.invalidateContent path) (s'.invalidateContent path) := by
  refine h.of_shrinks hs hs' (shrinks_invalidateContent path s)
    (shrinks_invalidateContent path s') (invalidateContent_chunkSize _ _)
    (invalidateContent_chunkSize _ _) (fun key hkey => ?_) (fun key hkey hroot => ?_) ?_
  · rw [entry_invalidateContent, entry_invalidateContent]
    split
    · have hsame := congrArg (Option.map fun shown =>
        ((shown.1, none) : StoredAttrs × Option (Label × (ℕ → Option Bytes)))) (h.shows _ hp)
      rw [Store.shows, Store.shows, Option.map_map, Option.map_map] at hsame
      rw [Option.map_map, Option.map_map]
      exact hsame
    · exact h.shows key hkey
  · rw [listing_invalidateContent, listing_invalidateContent, h.listing key hkey hroot]
  · rw [listing_invalidateContent, listing_invalidateContent, h.rootListing]

lemma invalidateChildren :
    Agree P root (s.invalidateChildren path) (s'.invalidateChildren path) := by
  refine h.of_shrinks hs hs' (shrinks_invalidateChildren path s)
    (shrinks_invalidateChildren path s') (invalidateChildren_chunkSize _ _)
    (invalidateChildren_chunkSize _ _) (fun key hkey => ?_) (fun key hkey hroot => ?_) ?_
  · rw [entry_invalidateChildren, entry_invalidateChildren]
    exact h.shows key hkey
  · rw [listing_invalidateChildren, listing_invalidateChildren, h.listing key hkey hroot]
  · rw [listing_invalidateChildren, listing_invalidateChildren]
    split
    · rfl
    · exact h.rootListing

end

/-- A rename of paths other than the root. -/
lemma rename (h : Agree P root s s') (hs : Kept s) (hs' : Kept s') {src dst : RemotePath}
    (hsrc : P src.asStr) (hdst : P dst.asStr) (hroot : ¬ Below src.asStr root)
    (hsrcRoot : src.asStr ≠ root) (hdstRoot : dst.asStr ≠ root) :
    Agree P root (s.rename src dst) (s'.rename src dst) := by
  have hmoved : ((s'.entry src.asStr).or (s'.entry dst.asStr)).map (Entry.shows s'.object) =
      ((s.entry src.asStr).or (s.entry dst.asStr)).map (Entry.shows s.object) := by
    rw [Option.map_or, Option.map_or]
    exact congrArg₂ Option.or (h.shows _ hsrc) (h.shows _ hdst)
  have hentry : ∀ key, P key →
      (if key = dst.asStr then (s'.entry src.asStr).or (s'.entry dst.asStr)
        else if key = src.asStr then none else s'.entry key).map (Entry.shows s'.object) =
      (if key = dst.asStr then (s.entry src.asStr).or (s.entry dst.asStr)
        else if key = src.asStr then none else s.entry key).map (Entry.shows s.object) := by
    intro key hkey
    split
    · exact hmoved
    · split
      · rfl
      · exact h.shows key hkey
  refine ⟨by rw [rename_chunkSize, rename_chunkSize, h.chunkSize], fun key hkey => ?_,
    fun key hkey hne => ?_, ?_⟩
  · rw [hs.shows_rename, hs'.shows_rename, entry_rename, entry_rename]
    split
    · rfl
    · exact hentry key hkey
  · have hsome := congrArg Option.isSome (hentry key hkey)
    rw [Option.isSome_map, Option.isSome_map] at hsome
    rw [listing_rename, listing_rename, hsome, h.listing key hkey hne,
      h.listing _ hsrc hsrcRoot, h.listing _ hdst hdstRoot]
  · rw [listing_rename, listing_rename]
    simp only [hroot, false_and, if_false, if_neg hdstRoot.symm, if_neg hsrcRoot.symm]
    exact h.rootListing

end Agree

/-! ## Fetching a chunk -/

section
variable {ρ : Type} {R : RemoteFilesystem ρ}

/-- What a read can see of the store is the same. -/
structure SameShown (s t : Store) : Prop where
  chunkSize : t.chunkSize = s.chunkSize
  shows : ∀ key, t.shows key = s.shows key
  listing : ∀ key, t.listing key = s.listing key

lemma Agree.congr {t t' : Store} (h : Agree P root s s') (ht : SameShown s t)
    (ht' : SameShown s' t') : Agree P root t t' where
  chunkSize := by rw [ht'.chunkSize, ht.chunkSize, h.chunkSize]
  shows key hkey := by rw [ht'.shows, ht.shows, h.shows key hkey]
  listing key hkey hne := by rw [ht'.listing, ht.listing, h.listing key hkey hne]
  rootListing := by rw [ht'.listing, ht.listing, h.rootListing]

lemma SameShown.trans {t u : Store} (h : SameShown s t) (h' : SameShown t u) : SameShown s u :=
  ⟨h'.chunkSize.trans h.chunkSize, fun key => (h'.shows key).trans (h.shows key),
    fun key => (h'.listing key).trans (h.listing key)⟩

lemma SameContents.shown {t : Store} (h : SameContents s t) : SameShown s t where
  chunkSize := h.chunkSize
  shows key := by
    have hobject : t.object = s.object := funext h.object
    rw [Store.shows, Store.shows, entry, h.index, hobject]
    rfl
  listing key := by rw [Store.listing, h.index]; rfl

/-- An object that nothing refers to is not shown. -/
lemma Unreferenced.shown_install {o : ℕ} (hfree : s.Unreferenced o) (temp : TempName) :
    SameShown s (s.install temp o) where
  chunkSize := rfl
  listing _ := rfl
  shows key := by
    have hentry : (s.install temp o).entry key = s.entry key := rfl
    rw [Store.shows, Store.shows, hentry]
    cases he : s.entry key with
    | none => rfl
    | some e =>
        cases hc : e.content with
        | none => simp [Entry.shows, hc]
        | some c =>
            have hbytes : c.bytes (s.install temp o).object = c.bytes s.object := by
              funext k
              cases hk : c.chunks.lookup k with
              | none => simp [ContentRef.bytes, hk]
              | some x =>
                  have hcontent : s.content key = some c := by rw [content, he]; exact hc
                  have hne : x ≠ o := fun heq => hfree key c k ⟨hcontent, heq ▸ hk⟩
                  simp [ContentRef.bytes, hk, object_install, hne]
            simp [Entry.shows, ContentRef.shows, hc, hbytes]

/-- The bytes of the chunk that a read with these attributes finds. -/
def cachedBytes (path : RemotePath) (attrs : FileAttributes) (k : ℕ) (s : Store) : Option Bytes :=
  (s.cachedChunk path attrs k).bind s.object

lemma content_shown (s : Store) (key : Str) :
    (s.content key).map (ContentRef.shows s.object) = (s.shows key).bind Prod.snd := by
  rw [content, Store.shows]
  cases s.entry key <;> rfl

lemma cachedBytes_eq (path : RemotePath) (attrs : FileAttributes) (k : ℕ) (s : Store) :
    s.cachedBytes path attrs k = ((s.shows path.asStr).bind Prod.snd).bind fun shown =>
      if shown.1 = attrs.label s.chunkSize then shown.2 k else none := by
  rw [← content_shown, cachedBytes, cachedChunk]
  cases s.content path.asStr with
  | none => rfl
  | some c =>
      simp only [Option.map_some, Option.bind_some, ContentRef.shows]
      split <;> rfl

/-- A chunk is found with its bytes. -/
lemma Kept.isSome_cachedBytes (hs : Kept s) (path : RemotePath) (attrs : FileAttributes) (k : ℕ) :
    (s.cachedBytes path attrs k).isSome = (s.cachedChunk path attrs k).isSome := by
  rw [cachedBytes]
  cases hk : s.cachedChunk path attrs k with
  | none => rfl
  | some o =>
      obtain ⟨c, hr, -⟩ := recorded_of_cachedChunk hk
      obtain ⟨b, hb, -⟩ := hs.good path.asStr c k o hr
      rw [Option.bind_some, hb]
      rfl

/-- What is shown after a chunk has been recorded. -/
lemma Kept.shows_recordChunk {path : RemotePath} {attrs : FileAttributes} {k o : ℕ}
    (hs' : Kept (s.recordChunk path attrs k o)) (key : Str) :
    (s.recordChunk path attrs k o).shows key =
      if key = path.asStr then
        some (((s.shows path.asStr).map Prod.fst).getD (.ofAttributes attrs),
          some (attrs.label s.chunkSize,
            fun j => if j = k then s.object o else s.cachedBytes path attrs j))
      else s.shows key := by
  have hdeletes : ∀ x, (s.recordChunk path attrs k o).object x = s.object x ∨
      (s.recordChunk path attrs k o).object x = none := fun x => by
    rw [object_recordChunk]
    split
    · exact .inr rfl
    · exact .inl rfl
  rw [Kept.shows_of_deletes hs' hdeletes, entry_recordChunk]
  split
  · have hattrs : (s.entry path.asStr).map Entry.attrs =
        (s.shows path.asStr).map Prod.fst := by
      rw [Store.shows, Option.map_map]
      rfl
    have hbytes : (s.recordedContent path attrs k o).bytes s.object =
        fun j => if j = k then s.object o else s.cachedBytes path attrs j := by
      funext j
      rw [ContentRef.bytes, recordedContent_lookup]
      split <;> rfl
    simp only [Option.map_some, Entry.shows, ContentRef.shows, recordedContent_label, hattrs,
      hbytes]
  · rfl

namespace Agree

lemma cachedBytes (h : Agree P root s s') {path : RemotePath} (hp : P path.asStr)
    (attrs : FileAttributes) (k : ℕ) :
    s'.cachedBytes path attrs k = s.cachedBytes path attrs k := by
  rw [cachedBytes_eq, cachedBytes_eq, h.shows _ hp, h.chunkSize]

/-- Recording chunks with the same bytes. -/
lemma recordChunk (h : Agree P root s s') {path : RemotePath} (hp : P path.asStr)
    {attrs : FileAttributes} {k o o' : ℕ} (hs : Kept (s.recordChunk path attrs k o))
    (hs' : Kept (s'.recordChunk path attrs k o')) (hobject : s'.object o' = s.object o) :
    Agree P root (s.recordChunk path attrs k o) (s'.recordChunk path attrs k o') where
  chunkSize := by rw [recordChunk_chunkSize, recordChunk_chunkSize, h.chunkSize]
  shows key hkey := by
    rw [hs.shows_recordChunk, hs'.shows_recordChunk, h.shows _ hp, h.chunkSize, hobject]
    simp only [h.cachedBytes hp, h.shows key hkey]
  listing key hkey hne := by
    rw [listing_recordChunk, listing_recordChunk, h.listing key hkey hne]
  rootListing := by rw [listing_recordChunk, listing_recordChunk, h.rootListing]

end Agree

/-- A download is a matter of the remote: it goes the same way into two empty temp files. -/
lemma download_same (R : RemoteFilesystem ρ) (path : RemotePath) (start len : ℕ)
    {temp temp' : TempName} (fuel filled : ℕ) (c : Conn ρ)
    (htemp : s'.disk.temps.lookup temp' = s.disk.temps.lookup temp) :
    (download R path start len temp' fuel filled s' c).1 =
        (download R path start len temp fuel filled s c).1 ∧
      (download R path start len temp' fuel filled s' c).2.2 =
        (download R path start len temp fuel filled s c).2.2 ∧
      (download R path start len temp' fuel filled s' c).2.1.disk.temps.lookup temp' =
        (download R path start len temp fuel filled s c).2.1.disk.temps.lookup temp := by
  induction fuel generalizing filled s s' c with
  | zero => exact ⟨rfl, rfl, htemp⟩
  | succ fuel ih =>
      rw [download, download]
      split
      · split
        · exact ⟨rfl, rfl, htemp⟩
        · next data c' _ =>
            split
            · exact ⟨rfl, rfl, htemp⟩
            · refine ih (filled + data.length) c' ?_
              simp only [emit_disk, FsEffect.apply, AList.lookup_insert, htemp]
      · exact ⟨rfl, rfl, htemp⟩

/-- Fetching a chunk keeps the bookkeeping. -/
lemma Kept.fetchChunk (hs : Kept s) (path : RemotePath) (attrs : FileAttributes) (k : ℕ)
    (c : Conn ρ) : Kept (s.fetchChunk R path attrs k c).2.1 := by
  have hruns := ReadTask.runs_fetchChunk (R := R) (a := ⟨path, attrs, 0, 0⟩) k [] s c
  have hend := ReadTask.Runs.induction
    (P := fun x => Kept x.2.store ∧ ReadTask.Owned x.1 x.2.store) (fun x hx => by
      have hstep := ReadTask.steps_next R ⟨path, attrs, 0, 0⟩ x.2 x.1
      exact ⟨hstep.sound hx.1 hx.2 fun _ _ _ _ _ _ => trivial, hstep.owned hx.1 hx.2⟩) hruns
    ⟨hs, ReadTask.owned_of_none rfl _⟩
  simp only at hend
  split at hend
  · next heq =>
      rw [heq]
      exact hend.1
  · next heq =>
      rw [heq]
      exact hend.1

lemma lookup_createTemp (o : ℕ) (s : Store) :
    (s.createTemp o).2.disk.temps.lookup (s.createTemp o).1 = some [] :=
  AList.lookup_insert _

/-- While a chunk is downloaded, the store shows what it did, and nothing refers to the new
object. -/
lemma Kept.downloading (hs : Kept s) {t : Store}
    (h : SameContents (s.allocObject.2.createTemp s.allocObject.1).2 t) :
    SameShown s t ∧ Kept t ∧ t.Unreferenced s.allocObject.1 := by
  have hstart : SameShown s (s.allocObject.2.createTemp s.allocObject.1).2 :=
    ⟨rfl, fun _ => rfl, fun _ => rfl⟩
  obtain ⟨hsound, hfree, -⟩ := Sound.downloaded hs h
  exact ⟨hstart.trans h.shown, hsound, hfree⟩

/-- **Fetching a chunk** into two stores that agree. -/
lemma Agree.fetchChunk (h : Agree P root s s') (hs : Kept s) (hs' : Kept s') {path : RemotePath}
    (hp : P path.asStr) (attrs : FileAttributes) (k : ℕ) (c : Conn ρ) :
    (s'.fetchChunk R path attrs k c).1.map (fun _ => ()) =
        (s.fetchChunk R path attrs k c).1.map (fun _ => ()) ∧
      (s'.fetchChunk R path attrs k c).2.2 = (s.fetchChunk R path attrs k c).2.2 ∧
      Agree P root (s.fetchChunk R path attrs k c).2.1 (s'.fetchChunk R path attrs k c).2.1 := by
  have hkept := hs.fetchChunk (R := R) path attrs k c
  have hkept' := hs'.fetchChunk (R := R) path attrs k c
  unfold Store.fetchChunk at hkept hkept' ⊢
  simp only at hkept hkept' ⊢
  set s₁ := (s.allocObject.2.createTemp s.allocObject.1).2
  set s₁' := (s'.allocObject.2.createTemp s'.allocObject.1).2
  set temp := (s.allocObject.2.createTemp s.allocObject.1).1
  set temp' := (s'.allocObject.2.createTemp s'.allocObject.1).1
  have hsize : s₁'.chunkSize = s₁.chunkSize := h.chunkSize
  have hlen : s₁'.chunkLen attrs k = s₁.chunkLen attrs k := by rw [chunkLen, chunkLen, hsize]
  rw [hlen, hsize] at hkept' ⊢
  have hempty : s₁'.disk.temps.lookup temp' = s₁.disk.temps.lookup temp :=
    (lookup_createTemp s'.allocObject.1 s'.allocObject.2).trans
      (lookup_createTemp s.allocObject.1 s.allocObject.2).symm
  obtain ⟨hanswer, hconn, htemps⟩ := download_same R path (k * s₁.chunkSize)
    (s₁.chunkLen attrs k) (s₁.chunkLen attrs k) 0 c hempty
  have hframe := (download_frame (R := R) path (k * s₁.chunkSize) (s₁.chunkLen attrs k) temp
    (s₁.chunkLen attrs k) 0 s₁ c).1
  have hframe' := (download_frame (R := R) path (k * s₁.chunkSize) (s₁.chunkLen attrs k) temp'
    (s₁.chunkLen attrs k) 0 s₁' c).1
  generalize download R path (k * s₁.chunkSize) (s₁.chunkLen attrs k) temp
    (s₁.chunkLen attrs k) 0 s₁ c = x at hkept hanswer hconn htemps hframe ⊢
  generalize download R path (k * s₁.chunkSize) (s₁.chunkLen attrs k) temp'
    (s₁.chunkLen attrs k) 0 s₁' c = y at hkept' hanswer hconn htemps hframe' ⊢
  obtain ⟨answer, t, c₁⟩ := x
  obtain ⟨answer', t', c₁'⟩ := y
  simp only at hanswer hconn htemps hframe hframe'
  subst hanswer hconn
  obtain ⟨hshown, ht, hfree⟩ := hs.downloading hframe
  obtain ⟨hshown', ht', hfree'⟩ := hs'.downloading hframe'
  cases answer' with
  | error e =>
      refine ⟨rfl, rfl, h.congr (hshown.trans ?_) (hshown'.trans ?_)⟩
      · exact ⟨rfl, fun _ => rfl, fun _ => rfl⟩
      · exact ⟨rfl, fun _ => rfl, fun _ => rfl⟩
  | ok _ =>
      refine ⟨rfl, rfl, Agree.recordChunk ?_ hp hkept hkept' ?_⟩
      · exact h.congr (hshown.trans (hfree.shown_install temp))
          (hshown'.trans (hfree'.shown_install temp'))
      · rw [object_install, object_install, if_pos rfl, if_pos rfl, htemps]

/-- Fetching the missing chunks: the same ones are missing. -/
lemma Agree.fetchMissing (h : Agree P root s s') (hs : Kept s) (hs' : Kept s') {path : RemotePath}
    (hp : P path.asStr) (attrs : FileAttributes) (ks : List ℕ) (c : Conn ρ) :
    (fetchMissing R path attrs ks s' c).1 = (fetchMissing R path attrs ks s c).1 ∧
      (fetchMissing R path attrs ks s' c).2.2 = (fetchMissing R path attrs ks s c).2.2 ∧
      Agree P root (fetchMissing R path attrs ks s c).2.1 (fetchMissing R path attrs ks s' c).2.1 ∧
      Kept (fetchMissing R path attrs ks s c).2.1 ∧
      Kept (fetchMissing R path attrs ks s' c).2.1 := by
  induction ks generalizing s s' c with
  | nil => exact ⟨rfl, rfl, h, hs, hs'⟩
  | cons k ks ih =>
      have hfound : (s'.cachedChunk path attrs k).isSome = (s.cachedChunk path attrs k).isSome := by
        rw [← hs'.isSome_cachedBytes, ← hs.isSome_cachedBytes, h.cachedBytes hp]
      rw [Store.fetchMissing, Store.fetchMissing]
      cases hk : s.cachedChunk path attrs k with
      | some o =>
          rw [hk] at hfound
          obtain ⟨o', hk'⟩ := Option.isSome_iff_exists.mp hfound
          rw [hk']
          exact ih h hs hs' c
      | none =>
          rw [hk] at hfound
          rw [Option.isSome_eq_false_iff.mp hfound |> Option.isNone_iff_eq_none.mp]
          obtain ⟨hanswer, hconn, hagree⟩ := h.fetchChunk (R := R) hs hs' hp attrs k c
          have hkept := hs.fetchChunk (R := R) path attrs k c
          have hkept' := hs'.fetchChunk (R := R) path attrs k c
          simp only
          generalize s.fetchChunk R path attrs k c = x at hanswer hconn hagree hkept ⊢
          generalize s'.fetchChunk R path attrs k c = y at hanswer hconn hagree hkept' ⊢
          obtain ⟨answer, t, c₁⟩ := x
          obtain ⟨answer', t', c₁'⟩ := y
          simp only at hanswer hconn hagree hkept hkept'
          subst hconn
          cases answer with
          | error e =>
              cases answer' with
              | error e' =>
                  cases hanswer
                  exact ⟨rfl, rfl, hagree, hkept, hkept'⟩
              | ok _ => cases hanswer
          | ok _ =>
              cases answer' with
              | error e' => cases hanswer
              | ok _ => exact ih hagree hkept hkept' c₁'

/-! ## Reads -/

/-- A piece of a chunk whose object exists is a matter of the chunk's bytes. -/
lemma readPiece_shown {c : ContentRef} (k : ℕ)
    (hgood : ∀ o, c.chunks.lookup k = some o → ∃ b, s.object o = some b) (offset stop : ℕ) :
    s.readPiece c.chunks offset stop k =
      match c.bytes s.object k with
      | some data =>
          let chunkStart := k * s.chunkSize
          let readStart := max offset chunkStart - chunkStart
          let readEnd := wrapSub (min stop (wrapAdd chunkStart s.chunkSize)) chunkStart
          .ok ((data.drop readStart).take (asU32 (wrapSub readEnd readStart)))
      | none => .error notCached := by
  rw [readPiece, ContentRef.bytes]
  cases hk : c.chunks.lookup k with
  | none => rfl
  | some o =>
      obtain ⟨b, hb⟩ := hgood o hk
      simp only [readObject, Option.bind_some, hb]

/-- Content that shows the same is assembled to the same. -/
lemma readPieces_shown {c c' : ContentRef} (hsize : s'.chunkSize = s.chunkSize)
    (hbytes : c'.bytes s'.object = c.bytes s.object)
    (hgood : ∀ k o, c.chunks.lookup k = some o → ∃ b, s.object o = some b)
    (hgood' : ∀ k o, c'.chunks.lookup k = some o → ∃ b, s'.object o = some b)
    (offset stop : ℕ) (ks : List ℕ) (data : Bytes) :
    s'.readPieces c'.chunks offset stop ks data = s.readPieces c.chunks offset stop ks data := by
  induction ks generalizing data with
  | nil => rfl
  | cons k ks ih =>
      have hpiece : s'.readPiece c'.chunks offset stop k = s.readPiece c.chunks offset stop k := by
        rw [readPiece_shown k (hgood' k), readPiece_shown k (hgood k), hbytes, hsize]
      rw [readPieces, readPieces, hpiece]
      split
      · exact ih _
      · rfl

namespace Agree

section
variable (h : Agree P root s s') (hs : Kept s) (hs' : Kept s') {path : RemotePath}
  (hp : P path.asStr)
include h hs hs' hp

lemma readCachedRange (offset stop : ℕ) :
    s'.readCachedRange path offset stop = s.readCachedRange path offset stop := by
  have hcontent : (s'.content path.asStr).map (ContentRef.shows s'.object) =
      (s.content path.asStr).map (ContentRef.shows s.object) := by
    rw [content_shown, content_shown, h.shows _ hp]
  rw [Store.readCachedRange, Store.readCachedRange, chunkMap, chunkMap, h.chunkSize]
  cases hc : s.content path.asStr with
  | none =>
      rw [hc] at hcontent
      rw [Option.map_eq_none_iff.mp hcontent]
  | some c =>
      rw [hc] at hcontent
      obtain ⟨c', hc', hshows⟩ := Option.map_eq_some_iff.mp hcontent
      have hlabel : c'.label = c.label := congrArg Prod.fst hshows
      have hsize : c'.chunkSize = c.chunkSize := congrArg Label.chunkSize hlabel
      have hpieces := readPieces_shown h.chunkSize (congrArg Prod.snd hshows)
        (fun k o hk => (hs.good path.asStr c k o ⟨hc, hk⟩).imp fun _ hb => hb.1)
        (fun k o hk => (hs'.good path.asStr c' k o ⟨hc', hk⟩).imp fun _ hb => hb.1)
      simp only [hc', hsize]
      by_cases heq : c.chunkSize = s.chunkSize
      · simp only [if_pos heq, hpieces]
      · simp only [if_neg heq]

lemma readCached (offset : UInt64) (size : UInt32) :
    s'.readCached path offset size = s.readCached path offset size := by
  have hcontent : (s'.content path.asStr).map (ContentRef.shows s'.object) =
      (s.content path.asStr).map (ContentRef.shows s.object) := by
    rw [content_shown, content_shown, h.shows _ hp]
  have hrange := h.readCachedRange hs hs' hp
  rw [Store.readCached, Store.readCached, h.chunkSize]
  cases hc : s.content path.asStr with
  | none =>
      rw [hc] at hcontent
      rw [Option.map_eq_none_iff.mp hcontent]
  | some c =>
      rw [hc] at hcontent
      obtain ⟨c', hc', hshows⟩ := Option.map_eq_some_iff.mp hcontent
      have hlabel : c'.label = c.label := congrArg Prod.fst hshows
      have hsize : c'.chunkSize = c.chunkSize := congrArg Label.chunkSize hlabel
      have hfile : c'.size = c.size := congrArg Label.size hlabel
      simp only [hc', hsize, hfile, hrange]

/-- **Reads** of two stores that agree: the same answer, after the same calls of the remote. -/
lemma read (attrs : FileAttributes) (offset : UInt64) (size : UInt32) (c : Conn ρ) :
    (s'.read R path attrs offset size c).1 = (s.read R path attrs offset size c).1 ∧
      (s'.read R path attrs offset size c).2.2 = (s.read R path attrs offset size c).2.2 ∧
      Agree P root (s.read R path attrs offset size c).2.1
        (s'.read R path attrs offset size c).2.1 := by
  rw [Store.read, Store.read]
  split
  · exact ⟨rfl, rfl, h⟩
  · obtain ⟨hanswer, hconn, hagree, hkept, hkept'⟩ := h.fetchMissing (R := R) hs hs' hp attrs
      (chunkRange offset.toNat (readStop offset size attrs.size) s.chunkSize) c
    simp only [h.chunkSize]
    generalize Store.fetchMissing R path attrs (chunkRange offset.toNat
      (readStop offset size attrs.size) s.chunkSize) s c = x at hanswer hconn hagree hkept ⊢
    generalize Store.fetchMissing R path attrs (chunkRange offset.toNat
      (readStop offset size attrs.size) s.chunkSize) s' c = y at hanswer hconn hagree hkept' ⊢
    obtain ⟨answer, t, c₁⟩ := x
    obtain ⟨answer', t', c₁'⟩ := y
    simp only at hanswer hconn hagree hkept hkept'
    subst hanswer hconn
    cases answer' with
    | error e => exact ⟨rfl, rfl, hagree⟩
    | ok _ => exact ⟨hagree.readCachedRange hkept hkept' hp _ _, rfl, hagree⟩

end

end Agree

end

end Store

end CacheShfs
