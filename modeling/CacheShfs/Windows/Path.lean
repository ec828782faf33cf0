import CacheShfs.Core.Path
import CacheShfs.Core.Text

/-!
# WinFsp paths

`crates/cacheshfs-windows/src/path.rs`: a path such as `\a\b\c` is walked from the root of a
`VirtualFilesystem`, one component at a time.  A component that is not there as it is written is
looked for without regard to case, and `resolve` reports the names as they are.

Paths are texts here: `to_string_lossy` comes before everything else, and what it has made of a
wide string it makes again of the text.  The methods of the filesystem that only read are functions
of its state: what they cache is not part of what they answer.

The path that `resolve` reports is canonical: `resolve` and `resolve_parent` come to the same file
with it, by exact matches only (`canonical_walk`).
-/

namespace CacheShfs

/-- `trait VirtualFilesystem`, as far as the adapter names files with it. -/
structure VirtualFilesystem (σ : Type) where
  lookup : σ → NodeId → Str → Except Error FileMetadata
  getattr : σ → NodeId → Except Error FileMetadata
  readdir : σ → NodeId → Except Error (List DirectoryEntry)
  openFile : NodeId → OpenFlags → σ → Except Error FileHandle × σ
  create : NodeId → Str → UInt32 → OpenFlags → σ → Except Error CreatedFile × σ
  mkdir : NodeId → Str → UInt32 → σ → Except Error FileMetadata × σ
  unlink : NodeId → Str → σ → Except Error Unit × σ
  rmdir : NodeId → Str → σ → Except Error Unit × σ
  rename : NodeId → Str → NodeId → Str → σ → Except Error Unit × σ

namespace Windows

/-- The separators of a path. -/
def isSeparator (c : Char) : Bool := c = '\\' || c = '/'

/-- `components`. -/
def components (fileName : Str) : List Str :=
  (fileName.splitOnP isSeparator).filter (· ≠ [])

/-! ## Names without regard to case -/

/-- What becomes a character before the small letters has been this character. -/
lemma eq_of_toLower {c d : Char} (hd : d.val < 97) (h : c.toLower = d) : c = d := by
  change dite (c.val ≥ 'A'.val ∧ c.val ≤ 'Z'.val) _ _ = d at h
  split at h
  · next hupper =>
      obtain ⟨hlow, hhigh⟩ := hupper
      have hval : c.val + 32 = d.val := congrArg Char.val h
      have hA : 65 ≤ c.val.toNat := UInt32.le_iff_toNat_le.mp hlow
      have hZ : c.val.toNat ≤ 90 := UInt32.le_iff_toNat_le.mp hhigh
      have hsum : d.val.toNat = c.val.toNat + 32 := by
        rw [← hval, UInt32.toNat_add]
        exact Nat.mod_eq_of_lt (show c.val.toNat + 32 < 2 ^ 32 by omega)
      have hsmall : d.val.toNat < 97 := UInt32.lt_iff_toNat_lt.mp hd
      exact absurd hsmall (by omega)
  · exact h

lemma eq_of_map_toLower {a b : Str} (hb : ∀ d ∈ b, d.val < 97 ∧ d.toLower = d)
    (h : eqIgnoreAsciiCase a b = true) : a = b := by
  simp only [eqIgnoreAsciiCase, decide_eq_true_eq] at h
  induction b generalizing a with
  | nil => exact List.map_eq_nil_iff.mp h
  | cons d rest ih =>
      cases a with
      | nil => cases h
      | cons c a =>
          obtain ⟨hd, hlower⟩ := hb d List.mem_cons_self
          obtain ⟨hhead, htail⟩ := List.cons.inj h
          rw [eq_of_toLower hd (hhead.trans hlower),
            ih (fun d' h' => hb d' (List.mem_cons_of_mem d h')) htail]

lemma mem_of_eqIgnoreAsciiCase {a b : Str} (h : eqIgnoreAsciiCase a b = true) {d : Char}
    (hd : d.val < 97) (hlower : d.toLower = d) (hmem : d ∈ b) : d ∈ a := by
  simp only [eqIgnoreAsciiCase, decide_eq_true_eq] at h
  have hmap : d ∈ a.map Char.toLower := by
    rw [h, ← hlower]
    exact List.mem_map_of_mem hmem
  obtain ⟨c, hc, hcd⟩ := List.mem_map.mp hmap
  rwa [eq_of_toLower hd hcd] at hc

/-- A name that differs from a path component in the case of letters is one too. -/
lemma validComponent_of_eqIgnoreAsciiCase {real name : Str}
    (h : eqIgnoreAsciiCase real name = true) (hreal : ValidComponent real) :
    ValidComponent name := by
  obtain ⟨hempty, hdot, hdots, hslash, hback⟩ := hreal
  have hperiod : '.'.val < 97 ∧ '.'.toLower = '.' := by decide
  have hone : ∀ d ∈ ['.'], d.val < 97 ∧ d.toLower = d := List.forall_mem_singleton.mpr hperiod
  refine ⟨?_, ?_, ?_, fun hmem => hslash ?_, fun hmem => hback ?_⟩
  · rintro rfl
    exact hempty (eq_of_map_toLower nofun h)
  · rintro rfl
    exact hdot (eq_of_map_toLower hone h)
  · rintro rfl
    exact hdots (eq_of_map_toLower (List.forall_mem_cons.mpr ⟨hperiod, hone⟩) h)
  · exact mem_of_eqIgnoreAsciiCase h (by decide) (by decide) hmem
  · exact mem_of_eqIgnoreAsciiCase h (by decide) (by decide) hmem

/-! ## Walks -/

variable {σ : Type} (V : VirtualFilesystem σ)

/-- `lookup_component`. -/
def lookupComponent (s : σ) (parent : NodeId) (name : Str) : Except Error (FileMetadata × Str) :=
  match V.lookup s parent name with
  | .ok metadata => .ok (metadata, name)
  | .error .notFound =>
      match V.readdir s parent with
      | .error e => .error e
      | .ok entries =>
          match entries.find? fun entry => eqIgnoreAsciiCase entry.name name with
          | some entry => .ok (entry.metadata, entry.name)
          | none => .error .notFound
  | .error e => .error e

/-- The loop of `resolve`. -/
def resolveFrom (s : σ) : List Str → NodeId → FileMetadata → Str → Except Error (FileMetadata × Str)
  | [], _, metadata, canonical => .ok (metadata, canonical)
  | component :: rest, node, _, canonical =>
      match lookupComponent V s node component with
      | .error e => .error e
      | .ok (found, realName) =>
          resolveFrom s rest found.node found (canonical ++ '\\' :: realName)

/-- `resolve`. -/
def resolve (s : σ) (fileName : Str) : Except Error (FileMetadata × Str) :=
  match V.getattr s .root with
  | .error e => .error e
  | .ok metadata =>
      match resolveFrom V s (components fileName) .root metadata [] with
      | .error e => .error e
      | .ok (metadata, canonical) =>
          .ok (metadata, if canonical = [] then ['\\'] else canonical)

/-- The loop of `resolve_parent`. -/
def walkParents (s : σ) : List Str → NodeId → Except Error NodeId
  | [], node => .ok node
  | component :: rest, node =>
      match lookupComponent V s node component with
      | .error e => .error e
      | .ok (metadata, _) => walkParents s rest metadata.node

/-- `resolve_parent`. -/
def resolveParent (s : σ) (fileName : Str) : Except Error (NodeId × Str) :=
  match (components fileName).getLast? with
  | none => .error (.invalidInput "the root has no parent")
  | some leaf =>
      match walkParents V s (components fileName).dropLast .root with
      | .error e => .error e
      | .ok node => .ok (node, leaf)

/-! ## Names -/

/-- A name has no separator in it and is not empty. -/
def Named (name : Str) : Prop := name ≠ [] ∧ ∀ c ∈ name, isSeparator c = false

/-- The path with these components. -/
def canonicalPath (names : List Str) : Str := names.flatMap fun name => '\\' :: name

lemma not_separator_of_mem_splitOnP {text part : Str} (h : part ∈ text.splitOnP isSeparator) :
    ∀ c ∈ part, isSeparator c = false := by
  induction text generalizing part with
  | nil =>
      rw [List.splitOnP_nil, List.mem_singleton] at h
      simp [h]
  | cons c text ih =>
      rw [List.splitOnP_cons_eq_if_modifyHead] at h
      by_cases hc : isSeparator c = true
      · rw [if_pos hc] at h
        rcases List.mem_cons.mp h with rfl | h
        · simp
        · exact ih h
      · rw [if_neg hc] at h
        obtain ⟨first, rest, hsplit⟩ :=
          List.exists_cons_of_ne_nil (List.splitOnP_ne_nil isSeparator text)
        rw [hsplit] at h ih
        rcases List.mem_cons.mp h with rfl | h
        · intro d hd
          rcases List.mem_cons.mp hd with rfl | hd
          · exact Bool.eq_false_iff.mpr hc
          · exact ih List.mem_cons_self d hd
        · exact ih (List.mem_cons_of_mem _ h)

lemma named_of_mem_components {fileName name : Str} (h : name ∈ components fileName) :
    Named name := by
  obtain ⟨hmem, hne⟩ := List.mem_filter.mp h
  exact ⟨by simpa using hne, not_separator_of_mem_splitOnP hmem⟩

lemma components_append {name : Str} {names : List Str} (hname : Named name)
    (h : ∀ name ∈ names, Named name) :
    components (name ++ canonicalPath names) = name :: names := by
  induction names generalizing name with
  | nil => simp [components, canonicalPath, List.splitOnP_eq_singleton hname.2, hname.1]
  | cons next names ih =>
      have hrest := ih (h next List.mem_cons_self) fun name hmem => h name
        (List.mem_cons_of_mem _ hmem)
      have hsplit := List.splitOnP_append_cons_of_forall_mem hname.2 '\\' (by decide)
        (next ++ canonicalPath names)
      rw [canonicalPath, List.flatMap_cons, ← canonicalPath, List.cons_append, components, hsplit,
        List.filter_cons_of_pos (by simpa using hname.1), ← components, hrest]

/-- The components of a path are the names that it has been made of. -/
lemma components_canonicalPath {names : List Str} (h : ∀ name ∈ names, Named name) :
    components (canonicalPath names) = names := by
  cases names with
  | nil => rfl
  | cons name names =>
      have hrest := components_append (h name List.mem_cons_self) fun name hmem => h name
        (List.mem_cons_of_mem _ hmem)
      have hsplit : ([] ++ '\\' :: (name ++ canonicalPath names)).splitOnP isSeparator = _ :=
        List.splitOnP_append_cons [] _ (by decide)
      rw [List.nil_append] at hsplit
      rw [canonicalPath, List.flatMap_cons, ← canonicalPath, List.cons_append, components, hsplit,
        List.filter_append]
      change components [] ++ components (name ++ canonicalPath names) = _
      rw [hrest]
      rfl

/-! ## The walk -/

/-- A state of the filesystem in which lookups agree with listings, and the names in a listing
have no separators. -/
structure Listed (s : σ) : Prop where
  lookup_iff : ∀ parent name metadata, V.lookup s parent name = .ok metadata ↔
    ∃ entries, V.readdir s parent = .ok entries ∧ ⟨name, metadata⟩ ∈ entries
  no_separator : ∀ parent entries entry, V.readdir s parent = .ok entries → entry ∈ entries →
    ∀ c ∈ entry.name, isSeparator c = false

variable {V} {s : σ}

lemma lookupComponent_of_lookup {parent : NodeId} {name : Str} {metadata : FileMetadata}
    (h : V.lookup s parent name = .ok metadata) :
    lookupComponent V s parent name = .ok (metadata, name) := by
  simp [lookupComponent, h]

/-- The name that is found is that of an entry, and the same in any case. -/
lemma lookupComponent_ok (hV : Listed V s) {parent : NodeId} {name realName : Str}
    {metadata : FileMetadata} (hname : Named name)
    (h : lookupComponent V s parent name = .ok (metadata, realName)) :
    V.lookup s parent realName = .ok metadata ∧ Named realName := by
  unfold lookupComponent at h
  split at h
  · next found hlookup =>
      obtain ⟨rfl, rfl⟩ := Prod.mk.inj (Except.ok.inj h)
      exact ⟨hlookup, hname⟩
  · split at h
    · cases h
    · next entries hlisting =>
        split at h
        · next entry hfind =>
            obtain ⟨rfl, rfl⟩ := Prod.mk.inj (Except.ok.inj h)
            have hmem := List.mem_of_find?_eq_some hfind
            have heq : entry.name.map Char.toLower = name.map Char.toLower := by
              simpa [eqIgnoreAsciiCase] using List.find?_some hfind
            refine ⟨(hV.lookup_iff _ _ _).mpr ⟨entries, hlisting, hmem⟩, fun hempty => ?_,
              hV.no_separator _ _ _ hlisting hmem⟩
            rw [hempty] at heq
            exact hname.1 (List.map_eq_nil_iff.mp heq.symm)
        · cases h
  · cases h

variable (V s) in
/-- A file that exact lookups come to, by at least one name. -/
inductive Walk : NodeId → List Str → FileMetadata → Prop
  | last {node : NodeId} {name : Str} {metadata : FileMetadata}
      (h : V.lookup s node name = .ok metadata) : Walk node [name] metadata
  | step {node : NodeId} {name : Str} {found : FileMetadata} {names : List Str}
      {metadata : FileMetadata} (h : V.lookup s node name = .ok found)
      (hrest : Walk found.node names metadata) : Walk node (name :: names) metadata

/-- What `resolve` reports is what exact lookups of the real names come to. -/
lemma resolveFrom_ok (hV : Listed V s) {path : List Str} (hne : path ≠ [])
    (hpath : ∀ name ∈ path, Named name) {node : NodeId} {start metadata : FileMetadata}
    {before canonical : Str}
    (h : resolveFrom V s path node start before = .ok (metadata, canonical)) :
    ∃ names, (∀ name ∈ names, Named name) ∧ canonical = before ++ canonicalPath names ∧
      Walk V s node names metadata := by
  induction path generalizing node start before with
  | nil => exact absurd rfl hne
  | cons component rest ih =>
      rw [resolveFrom] at h
      cases hfound : lookupComponent V s node component with
      | error e => simp [hfound] at h
      | ok r =>
          obtain ⟨found, realName⟩ := r
          simp only [hfound] at h
          obtain ⟨hlookup, hnamed⟩ := lookupComponent_ok hV (hpath _ List.mem_cons_self) hfound
          by_cases hrest : rest = []
          · subst hrest
            obtain ⟨rfl, rfl⟩ := Prod.mk.inj (Except.ok.inj h)
            exact ⟨[realName], by simpa using hnamed, by simp [canonicalPath], .last hlookup⟩
          · obtain ⟨names, hnames, rfl, hwalk⟩ :=
              ih hrest (fun name hmem => hpath name (List.mem_cons_of_mem _ hmem)) h
            refine ⟨realName :: names, ?_, by simp [canonicalPath], .step hlookup hwalk⟩
            intro name hmem
            rcases List.mem_cons.mp hmem with rfl | hmem
            · exact hnamed
            · exact hnames name hmem

lemma Walk.resolveFrom {node : NodeId} {names : List Str} {metadata : FileMetadata}
    (h : Walk V s node names metadata) (start : FileMetadata) (before : Str) :
    Windows.resolveFrom V s names node start before =
      .ok (metadata, before ++ canonicalPath names) := by
  induction h generalizing start before with
  | last h => simp [Windows.resolveFrom, lookupComponent_of_lookup h, canonicalPath]
  | step h _ ih =>
      simp only [Windows.resolveFrom, lookupComponent_of_lookup h, ih]
      simp [canonicalPath]

/-- The last step of a walk is a lookup in the directory that `resolve_parent` comes to. -/
lemma Walk.parent {node : NodeId} {names : List Str} {metadata : FileMetadata}
    (h : Walk V s node names metadata) :
    ∃ parent leaf, names.getLast? = some leaf ∧
      walkParents V s names.dropLast node = .ok parent ∧ V.lookup s parent leaf = .ok metadata := by
  induction h with
  | last h => exact ⟨_, _, rfl, rfl, h⟩
  | @step node name found names metadata h hrest ih =>
      obtain ⟨parent, leaf, hlast, hparents, hlookup⟩ := ih
      have hne : names ≠ [] := by
        rintro rfl
        cases hrest
      refine ⟨parent, leaf, ?_, ?_, hlookup⟩
      · rw [List.getLast?_cons_of_ne_nil hne]
        exact hlast
      · rw [List.dropLast_cons_of_ne_nil hne, walkParents, lookupComponent_of_lookup h]
        exact hparents

/-- The path that `resolve` reports is walked by exact lookups. -/
lemma canonical_walk (hV : Listed V s) {fileName canonical : Str} {metadata : FileMetadata}
    (hne : components fileName ≠ []) (h : resolve V s fileName = .ok (metadata, canonical)) :
    ∃ names, components canonical = names ∧ canonical = canonicalPath names ∧
      Walk V s .root names metadata := by
  unfold resolve at h
  cases hroot : V.getattr s .root with
  | error e => simp [hroot] at h
  | ok rootMetadata =>
      simp only [hroot] at h
      cases hfrom : resolveFrom V s (components fileName) .root rootMetadata [] with
      | error e => simp [hfrom] at h
      | ok r =>
          obtain ⟨metadata', canonical'⟩ := r
          simp only [hfrom] at h
          obtain ⟨names, hnames, hpath, hwalk⟩ :=
            resolveFrom_ok hV hne (fun name => named_of_mem_components) hfrom
          have hcanonical : canonical' ≠ [] := by
            rw [hpath]
            cases hwalk <;> simp [canonicalPath]
          rw [if_neg hcanonical] at h
          obtain ⟨rfl, rfl⟩ := Prod.mk.inj (Except.ok.inj h)
          rw [List.nil_append] at hpath
          exact ⟨names, by rw [hpath, components_canonicalPath hnames], hpath, hwalk⟩

/-- The reported path leads `resolve` to the same file, and to the same path. -/
lemma resolve_of_walk {names : List Str} {metadata root : FileMetadata} {canonical : Str}
    (hroot : V.getattr s .root = .ok root) (hcomponents : components canonical = names)
    (hpath : canonical = canonicalPath names) (h : Walk V s .root names metadata) :
    resolve V s canonical = .ok (metadata, canonical) := by
  have hne : canonicalPath names ≠ [] := by cases h <;> simp [canonicalPath]
  simp only [resolve, hroot, hcomponents, h.resolveFrom, List.nil_append, if_neg hne]
  rw [hpath]

lemma resolveParent_of_walk {names : List Str} {metadata : FileMetadata} {canonical : Str}
    (hcomponents : components canonical = names) (h : Walk V s .root names metadata) :
    ∃ parent leaf, resolveParent V s canonical = .ok (parent, leaf) ∧
      V.lookup s parent leaf = .ok metadata := by
  obtain ⟨parent, leaf, hlast, hparents, hlookup⟩ := h.parent
  refine ⟨parent, leaf, ?_, hlookup⟩
  simp only [resolveParent, hcomponents, hlast, hparents]

lemma getattr_of_resolve {fileName : Str} {r : FileMetadata × Str}
    (h : resolve V s fileName = .ok r) : ∃ root, V.getattr s .root = .ok root := by
  unfold resolve at h
  cases hroot : V.getattr s .root with
  | error e => simp [hroot] at h
  | ok root => exact ⟨root, rfl⟩

end Windows

end CacheShfs
