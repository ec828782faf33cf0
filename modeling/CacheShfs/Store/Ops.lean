import CacheShfs.Store.Index

/-!
# Metadata operations of the store

`get_attrs`, `put_attrs`, `record_listing`, `invalidate_children`, `remove`, `rename` and
`invalidate_content` of `crates/cacheshfs-core/src/store.rs`.

The second half gives each operation its specification in terms of three views of the store:
`entry` and `listing` (the two maps of the index) and `object` (the object files).  Later
modules never unfold an operation; they rewrite with these views.
-/

namespace CacheShfs

/-- `Store::content_objects`. -/
def contentObjects (content : ContentRef) : List ℕ :=
  content.object.toList ++ FMap.values content.chunks

/-- The objects an entry refers to. -/
def Entry.objects (entry : Entry) : List ℕ :=
  match entry.content with
  | some content => contentObjects content
  | none => []

/-- The version test of `store_attrs`: content cached at another size or mtime is stale. -/
def ContentRef.StaleFor (content : ContentRef) (attrs : FileAttributes) : Prop :=
  content.size ≠ attrs.size ∨ content.modified ≠ attrs.modifiedUnixSeconds

instance (content : ContentRef) (attrs : FileAttributes) : Decidable (content.StaleFor attrs) :=
  inferInstanceAs (Decidable (_ ∨ _))

namespace Index

/-- Insert or replace one entry. -/
def setEntry (index : Index) (key : Str) (entry : Entry) : Index :=
  { index with entries := index.entries.insert key entry }

/-- `Store::store_attrs`: update one entry's attributes, dropping its content (and returning
the now orphaned object ids) if the version changed. -/
def storeAttrs (index : Index) (key : Str) (attrs : FileAttributes) : Index × List ℕ :=
  let entry := (index.entries.lookup key).getD ⟨.ofAttributes attrs, none⟩
  let entry := { entry with attrs := .ofAttributes attrs }
  match entry.content with
  | some content =>
      if content.StaleFor attrs then
        (index.setEntry key { entry with content := none }, contentObjects content)
      else (index.setEntry key entry, [])
  | none => (index.setEntry key entry, [])

/-- The loop of `record_listing` over the children; a name that is no path component is
skipped. -/
def storeChildren (parent : RemotePath) :
    List (Str × FileAttributes) → Index → List ℕ → Index × List ℕ
  | [], index, orphans => (index, orphans)
  | (name, attrs) :: children, index, orphans =>
      match parent.join name with
      | .ok child =>
          let (index, objects) := index.storeAttrs child.asStr attrs
          storeChildren parent children index (orphans ++ objects)
      | .error _ => storeChildren parent children index orphans

/-- The entry and the listing of a renamed path move to the new path, if they exist. -/
def move (index : Index) (src dst : Str) : Index :=
  { index with
    entries := FMap.rekey src dst index.entries
    listings := FMap.rekey src dst index.listings }

/-- The keys of the entries strictly below `path`. -/
def descendants (index : Index) (path : Str) : List Str :=
  index.entries.keys.filter (fun key => decide (Below path key))

/-- Forget a list of keys in both maps. -/
def forget (index : Index) (keys : List Str) : Index :=
  { index with
    entries := FMap.eraseAll keys index.entries
    listings := FMap.eraseAll keys index.listings }

end Index

namespace Store

/-- `Store::get_attrs`. -/
def getAttrs (path : RemotePath) (s : Store) : Option FileAttributes :=
  (s.index.entries.lookup path.asStr).map (·.attrs.toAttributes)

/-- `Store::get_children`. -/
def getChildren (path : RemotePath) (s : Store) : Option (List Str) :=
  s.index.listings.lookup path.asStr

/-- `Store::put_attrs`. -/
def putAttrs (path : RemotePath) (attrs : FileAttributes) (s : Store) : Store :=
  let (index, stale) := s.index.storeAttrs path.asStr attrs
  (s.setIndex index).persist.removeObjects stale

/-- `Store::record_listing`. -/
def recordListing (parent : RemotePath) (children : List (Str × FileAttributes)) (s : Store) :
    Store :=
  let names := children.map Prod.fst
  let (index, orphans) := s.index.storeChildren parent children []
  let index := { index with listings := index.listings.insert parent.asStr names }
  (s.setIndex index).persist.removeObjects orphans

/-- `Store::invalidate_children`. -/
def invalidateChildren (path : RemotePath) (s : Store) : Store :=
  let index := { s.index with listings := s.index.listings.erase path.asStr }
  (s.setIndex index).persistIf (s.index.listings.lookup path.asStr).isSome

/-- `Store::remove`. -/
def remove (path : RemotePath) (s : Store) : Store :=
  let entry := s.index.entries.lookup path.asStr
  let hadListing := (s.index.listings.lookup path.asStr).isSome
  let index := { s.index with
    entries := s.index.entries.erase path.asStr
    listings := s.index.listings.erase path.asStr }
  ((s.setIndex index).persistIf (entry.isSome || hadListing)).removeObjects
    ((entry.map Entry.objects).getD [])

/-- `Store::rename`: move `src` to `dst`, evicting the entries below `src`. -/
def rename (src dst : RemotePath) (s : Store) : Store :=
  let index := s.index.move src.asStr dst.asStr
  let descendants := index.descendants src.asStr
  let orphans := descendants.flatMap fun key =>
    ((index.entries.lookup key).map Entry.objects).getD []
  (s.setIndex (index.forget descendants)).persist.removeObjects orphans

/-- `Store::invalidate_content`. -/
def invalidateContent (path : RemotePath) (s : Store) : Store :=
  match s.index.entries.lookup path.asStr with
  | some entry =>
      let index := s.index.setEntry path.asStr { entry with content := none }
      ((s.setIndex index).persistIf (entry.objects ≠ [])).removeObjects entry.objects
  | none => s

/-! ## Views -/

/-- The index entry under a key. -/
def entry (s : Store) (key : Str) : Option Entry := s.index.entries.lookup key

/-- The listing under a key. -/
def listing (s : Store) (key : Str) : Option (List Str) := s.index.listings.lookup key

/-- The object file with an id. -/
def object (s : Store) (id : ℕ) : Option Bytes := s.disk.objects.lookup id

/-- The content reference under a key. -/
def content (s : Store) (key : Str) : Option ContentRef := (s.entry key).bind Entry.content

lemma getAttrs_eq (path : RemotePath) (s : Store) :
    s.getAttrs path = (s.entry path.asStr).map (·.attrs.toAttributes) := rfl

lemma getChildren_eq (path : RemotePath) (s : Store) :
    s.getChildren path = s.listing path.asStr := rfl

@[simp] lemma entry_persist (s : Store) (key : Str) : s.persist.entry key = s.entry key := rfl

@[simp] lemma listing_persist (s : Store) (key : Str) :
    s.persist.listing key = s.listing key := rfl

@[simp] lemma object_persist (s : Store) (o : ℕ) : s.persist.object o = s.object o := rfl

@[simp] lemma entry_removeObjects (os : List ℕ) (s : Store) (key : Str) :
    (s.removeObjects os).entry key = s.entry key := by simp [entry]

@[simp] lemma listing_removeObjects (os : List ℕ) (s : Store) (key : Str) :
    (s.removeObjects os).listing key = s.listing key := by simp [listing]

lemma object_removeObjects (os : List ℕ) (s : Store) (o : ℕ) :
    (s.removeObjects os).object o = if o ∈ os then none else s.object o :=
  lookup_removeObjects os s o

end Store

/-! ## `put_attrs` -/

/-- The content `store_attrs` keeps of an entry: the one of the same version. -/
def keptContent (attrs : FileAttributes) (entry : Option Entry) : Option ContentRef :=
  match entry.bind Entry.content with
  | some content => if content.StaleFor attrs then none else some content
  | none => none

/-- The objects `store_attrs` orphans: those of a stale content. -/
def staleObjects (attrs : FileAttributes) (entry : Option Entry) : List ℕ :=
  match entry.bind Entry.content with
  | some content => if content.StaleFor attrs then contentObjects content else []
  | none => []

lemma keptContent_eq_some {attrs : FileAttributes} {entry : Option Entry} {c : ContentRef} :
    keptContent attrs entry = some c ↔
      (∃ e, entry = some e ∧ e.content = some c) ∧ ¬ c.StaleFor attrs := by
  cases hcontent : entry.bind Entry.content with
  | none =>
      have hno : ¬ ∃ e, entry = some e ∧ e.content = some c := by
        rintro ⟨e, rfl, he⟩
        simp [he] at hcontent
      simp [keptContent, hcontent, hno]
  | some content =>
      obtain ⟨e, rfl, he⟩ := Option.bind_eq_some_iff.mp hcontent
      by_cases hstale : content.StaleFor attrs
      · simp only [keptContent, hcontent, hstale, if_true, reduceCtorEq, false_iff, not_and,
          not_not]
        rintro ⟨e', heq, he'⟩
        cases heq
        rw [he] at he'
        cases he'
        exact hstale
      · simp only [keptContent, hcontent, hstale, if_false, Option.some.injEq]
        constructor
        · rintro rfl
          exact ⟨⟨e, rfl, he⟩, hstale⟩
        · rintro ⟨⟨e', heq, he'⟩, -⟩
          subst heq
          rw [he] at he'
          exact Option.some.inj he'

namespace Index

lemma storeAttrs_spec (index : Index) (key : Str) (attrs : FileAttributes) :
    index.storeAttrs key attrs =
      (index.setEntry key ⟨.ofAttributes attrs, keptContent attrs (index.entries.lookup key)⟩,
        staleObjects attrs (index.entries.lookup key)) := by
  cases hlook : index.entries.lookup key with
  | none => simp [storeAttrs, hlook, keptContent, staleObjects]
  | some entry =>
      obtain ⟨old, content⟩ := entry
      cases content with
      | none => simp [storeAttrs, hlook, keptContent, staleObjects]
      | some content =>
          by_cases hstale : content.StaleFor attrs <;>
            simp [storeAttrs, hlook, keptContent, staleObjects, hstale]

end Index

namespace Store

lemma putAttrs_spec (path : RemotePath) (attrs : FileAttributes) (s : Store) :
    s.putAttrs path attrs =
      (s.setIndex (s.index.setEntry path.asStr
          ⟨.ofAttributes attrs, keptContent attrs (s.entry path.asStr)⟩)).persist.removeObjects
        (staleObjects attrs (s.entry path.asStr)) := by
  rw [putAttrs, Index.storeAttrs_spec]
  rfl

@[simp] lemma putAttrs_chunkSize (path : RemotePath) (attrs : FileAttributes) (s : Store) :
    (s.putAttrs path attrs).chunkSize = s.chunkSize := by simp [putAttrs_spec]

@[simp] lemma putAttrs_nextObject (path : RemotePath) (attrs : FileAttributes) (s : Store) :
    (s.putAttrs path attrs).index.nextObject = s.index.nextObject := by
  simp [putAttrs_spec, Index.setEntry]

lemma entry_putAttrs (path : RemotePath) (attrs : FileAttributes) (s : Store) (key : Str) :
    (s.putAttrs path attrs).entry key =
      if key = path.asStr then
        some ⟨.ofAttributes attrs, keptContent attrs (s.entry path.asStr)⟩
      else s.entry key := by
  rw [putAttrs_spec, entry_removeObjects, entry_persist]
  exact FMap.lookup_insert_eq_ite _ _ _ _

@[simp] lemma listing_putAttrs (path : RemotePath) (attrs : FileAttributes) (s : Store)
    (key : Str) : (s.putAttrs path attrs).listing key = s.listing key := by
  rw [putAttrs_spec, listing_removeObjects, listing_persist]
  rfl

lemma object_putAttrs (path : RemotePath) (attrs : FileAttributes) (s : Store) (o : ℕ) :
    (s.putAttrs path attrs).object o =
      if o ∈ staleObjects attrs (s.entry path.asStr) then none else s.object o := by
  rw [putAttrs_spec, object_removeObjects, object_persist]
  rfl

lemma getAttrs_putAttrs_self (path : RemotePath) (attrs : FileAttributes) (s : Store) :
    (s.putAttrs path attrs).getAttrs path = some attrs := by
  rw [getAttrs_eq, entry_putAttrs, if_pos rfl]
  simp

/-! ## `record_listing` -/

end Store

namespace Index

lemma storeChildren_cons (parent : RemotePath) (name : Str) (attrs : FileAttributes)
    (children : List (Str × FileAttributes)) (index : Index) (orphans : List ℕ) :
    index.storeChildren parent ((name, attrs) :: children) orphans =
      if ValidComponent name then
        (index.storeAttrs (childKey parent.asStr name) attrs).1.storeChildren parent children
          (orphans ++ (index.storeAttrs (childKey parent.asStr name) attrs).2)
      else index.storeChildren parent children orphans := by
  by_cases h : ValidComponent name
  · rw [storeChildren, parent.join_eq_ok h, if_pos h]
    rfl
  · rw [if_neg h]
    simp [storeChildren, RemotePath.join, h]

lemma storeAttrs_lookup (index : Index) (key : Str) (attrs : FileAttributes) (k : Str) :
    (index.storeAttrs key attrs).1.entries.lookup k =
      if k = key then some ⟨.ofAttributes attrs, keptContent attrs (index.entries.lookup key)⟩
      else index.entries.lookup k := by
  rw [storeAttrs_spec]
  exact FMap.lookup_insert_eq_ite _ _ _ _

@[simp] lemma storeAttrs_listings (index : Index) (key : Str) (attrs : FileAttributes) :
    (index.storeAttrs key attrs).1.listings = index.listings := by
  simp [storeAttrs_spec, setEntry]

@[simp] lemma storeAttrs_nextObject (index : Index) (key : Str) (attrs : FileAttributes) :
    (index.storeAttrs key attrs).1.nextObject = index.nextObject := by
  simp [storeAttrs_spec, setEntry]

@[simp] lemma storeChildren_listings (parent : RemotePath)
    (children : List (Str × FileAttributes)) (index : Index) (orphans : List ℕ) :
    (index.storeChildren parent children orphans).1.listings = index.listings := by
  induction children generalizing index orphans with
  | nil => rfl
  | cons child children ih =>
      obtain ⟨name, attrs⟩ := child
      rw [storeChildren_cons]
      split
      · rw [ih, storeAttrs_listings]
      · exact ih _ _

/-- After the loop, every child holds the attributes of one of its occurrences in the list, and
every other key is untouched. -/
lemma storeChildren_entries (parent : RemotePath) (children : List (Str × FileAttributes))
    (index : Index) (orphans : List ℕ) (key : Str) :
    (∃ name attrs content, (name, attrs) ∈ children ∧ ValidComponent name ∧
        key = childKey parent.asStr name ∧
        (index.storeChildren parent children orphans).1.entries.lookup key =
          some ⟨.ofAttributes attrs, content⟩) ∨
      ((∀ name attrs, (name, attrs) ∈ children → ValidComponent name →
          key ≠ childKey parent.asStr name) ∧
        (index.storeChildren parent children orphans).1.entries.lookup key =
          index.entries.lookup key) := by
  induction children generalizing index orphans with
  | nil => exact .inr ⟨by simp, rfl⟩
  | cons child children ih =>
      obtain ⟨name, attrs⟩ := child
      rw [storeChildren_cons]
      by_cases hvalid : ValidComponent name
      · rw [if_pos hvalid]
        rcases ih (index.storeAttrs (childKey parent.asStr name) attrs).1
            (orphans ++ (index.storeAttrs (childKey parent.asStr name) attrs).2) with
          ⟨name', attrs', content, hmem, hvalid', hkey, hlook⟩ | ⟨hnone, hlook⟩
        · exact .inl ⟨name', attrs', content, List.mem_cons_of_mem _ hmem, hvalid', hkey, hlook⟩
        · -- no later child has this key, so the entry is the one just stored, or the old one
          rw [storeAttrs_lookup] at hlook
          by_cases hkey : key = childKey parent.asStr name
          · rw [if_pos hkey] at hlook
            exact .inl ⟨name, attrs, _, by simp, hvalid, hkey, hlook⟩
          · rw [if_neg hkey] at hlook
            refine .inr ⟨?_, hlook⟩
            intro name' attrs' hmem hvalid'
            rcases List.mem_cons.mp hmem with heq | hmem
            · cases heq
              exact hkey
            · exact hnone name' attrs' hmem hvalid'
      · rw [if_neg hvalid]
        rcases ih index orphans with
          ⟨name', attrs', content, hmem, hvalid', hkey, hlook⟩ | ⟨hnone, hlook⟩
        · exact .inl ⟨name', attrs', content, List.mem_cons_of_mem _ hmem, hvalid', hkey, hlook⟩
        · refine .inr ⟨?_, hlook⟩
          intro name' attrs' hmem hvalid'
          rcases List.mem_cons.mp hmem with heq | hmem
          · cases heq
            exact absurd hvalid' hvalid
          · exact hnone name' attrs' hmem hvalid'

end Index

namespace Store

@[simp] lemma recordListing_chunkSize (parent : RemotePath)
    (children : List (Str × FileAttributes)) (s : Store) :
    (s.recordListing parent children).chunkSize = s.chunkSize := by simp [recordListing]

lemma listing_recordListing (parent : RemotePath) (children : List (Str × FileAttributes))
    (s : Store) (key : Str) :
    (s.recordListing parent children).listing key =
      if key = parent.asStr then some (children.map Prod.fst) else s.listing key := by
  simp only [recordListing, listing_removeObjects, listing_persist]
  simp only [listing, setIndex_index, FMap.lookup_insert_eq_ite, Index.storeChildren_listings]

/-- The entry under `key` after recording a listing: a child's new attributes, or unchanged. -/
lemma entry_recordListing (parent : RemotePath) (children : List (Str × FileAttributes))
    (s : Store) (key : Str) :
    (∃ name attrs content, (name, attrs) ∈ children ∧ ValidComponent name ∧
        key = childKey parent.asStr name ∧
        (s.recordListing parent children).entry key = some ⟨.ofAttributes attrs, content⟩) ∨
      ((∀ name attrs, (name, attrs) ∈ children → ValidComponent name →
          key ≠ childKey parent.asStr name) ∧
        (s.recordListing parent children).entry key = s.entry key) := by
  have hentry : (s.recordListing parent children).entry key =
      (s.index.storeChildren parent children []).1.entries.lookup key := by
    simp [recordListing, entry]
  rw [hentry]
  exact s.index.storeChildren_entries parent children [] key

/-! ## `invalidate_children`, `remove`, `invalidate_content` -/

@[simp] lemma invalidateChildren_chunkSize (path : RemotePath) (s : Store) :
    (s.invalidateChildren path).chunkSize = s.chunkSize := by simp [invalidateChildren]

@[simp] lemma invalidateChildren_nextObject (path : RemotePath) (s : Store) :
    (s.invalidateChildren path).index.nextObject = s.index.nextObject := by
  simp [invalidateChildren]

@[simp] lemma entry_invalidateChildren (path : RemotePath) (s : Store) (key : Str) :
    (s.invalidateChildren path).entry key = s.entry key := by
  simp [invalidateChildren, entry]

lemma listing_invalidateChildren (path : RemotePath) (s : Store) (key : Str) :
    (s.invalidateChildren path).listing key =
      if key = path.asStr then none else s.listing key := by
  simp only [invalidateChildren, listing, persistIf_index, setIndex_index]
  exact FMap.lookup_erase_eq_ite _ _ _

@[simp] lemma object_invalidateChildren (path : RemotePath) (s : Store) (o : ℕ) :
    (s.invalidateChildren path).object o = s.object o := by
  simp [invalidateChildren, object]

@[simp] lemma remove_chunkSize (path : RemotePath) (s : Store) :
    (s.remove path).chunkSize = s.chunkSize := by simp [remove]

@[simp] lemma remove_nextObject (path : RemotePath) (s : Store) :
    (s.remove path).index.nextObject = s.index.nextObject := by simp [remove]

lemma entry_remove (path : RemotePath) (s : Store) (key : Str) :
    (s.remove path).entry key = if key = path.asStr then none else s.entry key := by
  simp only [remove, entry_removeObjects]
  simp only [entry, persistIf_index, setIndex_index]
  exact FMap.lookup_erase_eq_ite _ _ _

lemma listing_remove (path : RemotePath) (s : Store) (key : Str) :
    (s.remove path).listing key = if key = path.asStr then none else s.listing key := by
  simp only [remove, listing_removeObjects]
  simp only [listing, persistIf_index, setIndex_index]
  exact FMap.lookup_erase_eq_ite _ _ _

lemma object_remove (path : RemotePath) (s : Store) (o : ℕ) :
    (s.remove path).object o =
      if o ∈ ((s.entry path.asStr).map Entry.objects).getD [] then none else s.object o := by
  simp only [remove, object_removeObjects]
  simp only [object, persistIf_objects, setIndex_disk]
  rfl

@[simp] lemma invalidateContent_chunkSize (path : RemotePath) (s : Store) :
    (s.invalidateContent path).chunkSize = s.chunkSize := by
  unfold invalidateContent
  split <;> simp

/-- The index `invalidate_content` leaves: the content reference of `path` is gone. -/
lemma invalidateContent_index (path : RemotePath) (s : Store) :
    (s.invalidateContent path).index =
      match s.entry path.asStr with
      | some e => s.index.setEntry path.asStr { e with content := none }
      | none => s.index := by
  unfold invalidateContent entry
  split <;> simp

@[simp] lemma invalidateContent_nextObject (path : RemotePath) (s : Store) :
    (s.invalidateContent path).index.nextObject = s.index.nextObject := by
  rw [invalidateContent_index]
  split <;> rfl

@[simp] lemma listing_invalidateContent (path : RemotePath) (s : Store) (key : Str) :
    (s.invalidateContent path).listing key = s.listing key := by
  rw [listing, invalidateContent_index]
  split <;> rfl

lemma entry_invalidateContent (path : RemotePath) (s : Store) (key : Str) :
    (s.invalidateContent path).entry key =
      if key = path.asStr then (s.entry path.asStr).map (fun e => { e with content := none })
      else s.entry key := by
  rw [entry, invalidateContent_index]
  split
  · next e he =>
      rw [he]
      exact FMap.lookup_insert_eq_ite _ _ _ _
  · next he =>
      rw [he]
      split
      · next h => rw [h]; exact he
      · rfl

lemma object_invalidateContent (path : RemotePath) (s : Store) (o : ℕ) :
    (s.invalidateContent path).object o =
      if o ∈ ((s.entry path.asStr).map Entry.objects).getD [] then none else s.object o := by
  unfold invalidateContent entry
  split
  · next e he =>
      rw [object_removeObjects, he]
      simp [object]
  · next he => simp [he]

/-! ## `rename` -/

end Store

namespace Index

lemma mem_descendants {index : Index} {path key : Str} :
    key ∈ index.descendants path ↔ (index.entries.lookup key).isSome ∧ Below path key := by
  rw [descendants, List.mem_filter, decide_eq_true_eq, ← AList.mem_keys, AList.lookup_isSome]

end Index

namespace Store

@[simp] lemma rename_chunkSize (src dst : RemotePath) (s : Store) :
    (s.rename src dst).chunkSize = s.chunkSize := by simp [rename]

@[simp] lemma rename_nextObject (src dst : RemotePath) (s : Store) :
    (s.rename src dst).index.nextObject = s.index.nextObject := by
  simp [rename, Index.forget, Index.move]

/-- The entries after a rename: `dst` holds the entry of `src` (or keeps its own if `src` had
none), and nothing is left at or below `src`. -/
lemma entry_rename (src dst : RemotePath) (s : Store) (key : Str) :
    (s.rename src dst).entry key =
      if Below src.asStr key then none
      else if key = dst.asStr then (s.entry src.asStr).or (s.entry dst.asStr)
      else if key = src.asStr then none else s.entry key := by
  simp only [rename, entry_removeObjects, entry_persist]
  simp only [entry, setIndex_index, Index.forget, FMap.lookup_eraseAll, Index.mem_descendants]
  by_cases hbelow : Below src.asStr key
  · cases AList.lookup key (s.index.move src.asStr dst.asStr).entries <;> simp [hbelow]
  · simp [hbelow, Index.move, FMap.lookup_rekey]

/-- The listings after a rename.  A listing below `src` is evicted only where an entry stands
under the same key. -/
lemma listing_rename (src dst : RemotePath) (s : Store) (key : Str) :
    (s.rename src dst).listing key =
      if Below src.asStr key ∧
          (if key = dst.asStr then (s.entry src.asStr).or (s.entry dst.asStr)
            else if key = src.asStr then none else s.entry key).isSome then none
      else if key = dst.asStr then (s.listing src.asStr).or (s.listing dst.asStr)
      else if key = src.asStr then none else s.listing key := by
  simp only [rename, listing_removeObjects, listing_persist]
  simp only [listing, entry, setIndex_index, Index.forget, FMap.lookup_eraseAll,
    Index.mem_descendants, Index.move, FMap.lookup_rekey, and_comm]
  congr

end Store

end CacheShfs
