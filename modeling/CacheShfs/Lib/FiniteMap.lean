import Mathlib.Data.List.AList

/-!
# Finite maps with one value type

`FMap K V` is Mathlib's `AList` at a constant value type: a finite association list with
distinct keys, computable and with decidable lookups.  Mathlib states the lookup laws at equal
and at different keys separately; the two `_eq_ite` forms below state each once, so that a
proof about an updated map splits on the key and on nothing else.

`eraseAll` deletes a list of keys one after the other, `rekey` moves a value from one key to
another, and `values` reads the values off; these are the operations a path-keyed index needs
beyond insertion and deletion.
-/

/-- A finite map from `K` to `V`. -/
abbrev FMap (K V : Type) := AList (fun _ : K => V)

namespace FMap

variable {K V : Type} [DecidableEq K]

lemma lookup_insert_eq_ite (m : FMap K V) (k k' : K) (v : V) :
    AList.lookup k' (AList.insert k v m) = if k' = k then some v else AList.lookup k' m := by
  split
  · next h => rw [h, AList.lookup_insert]
  · next h => exact AList.lookup_insert_ne h

lemma lookup_erase_eq_ite (m : FMap K V) (k k' : K) :
    AList.lookup k' (AList.erase k m) = if k' = k then none else AList.lookup k' m := by
  split
  · next h => rw [h, AList.lookup_erase]
  · next h => exact AList.lookup_erase_ne h

/-- Delete every key of a list, one after the other. -/
def eraseAll (ks : List K) (m : FMap K V) : FMap K V :=
  ks.foldl (fun m k => AList.erase k m) m

lemma lookup_eraseAll (ks : List K) (m : FMap K V) (k : K) :
    AList.lookup k (eraseAll ks m) = if k ∈ ks then none else AList.lookup k m := by
  induction ks generalizing m with
  | nil => simp [eraseAll]
  | cons a ks ih =>
      have hrec := ih (AList.erase a m)
      simp only [eraseAll, List.foldl_cons] at hrec ⊢
      rw [hrec, lookup_erase_eq_ite]
      by_cases ha : k = a <;> by_cases hk : k ∈ ks <;> simp [ha, hk]

/-- Move the value at `src`, if there is one, to `dst`. -/
def rekey (src dst : K) (m : FMap K V) : FMap K V :=
  match AList.lookup src m with
  | some v => AList.insert dst v (AList.erase src m)
  | none => m

lemma lookup_rekey (src dst : K) (m : FMap K V) (k : K) :
    AList.lookup k (rekey src dst m) =
      if k = dst then (AList.lookup src m).or (AList.lookup dst m)
      else if k = src then none else AList.lookup k m := by
  unfold rekey
  cases hsrc : AList.lookup src m with
  | some v => simp only [lookup_insert_eq_ite, lookup_erase_eq_ite, Option.some_or]
  | none =>
      obtain rfl | hdst := eq_or_ne k dst
      · simp
      · obtain rfl | hk := eq_or_ne k src
        · simp [hdst, hsrc]
        · simp [hdst, hk]

/-- The values of a map, in the order of its association list. -/
def values (m : FMap K V) : List V := m.entries.map Sigma.snd

omit [DecidableEq K] in
lemma mem_values {m : FMap K V} {v : V} :
    v ∈ values m ↔ ∃ k, (⟨k, v⟩ : (_ : K) × V) ∈ m.entries := by
  simp only [values, List.mem_map]
  constructor
  · rintro ⟨⟨k, w⟩, hmem, rfl⟩
    exact ⟨k, hmem⟩
  · rintro ⟨k, hmem⟩
    exact ⟨⟨k, v⟩, hmem, rfl⟩

/-- The values are exactly what some key is looked up to. -/
lemma mem_values_iff {m : FMap K V} {v : V} :
    v ∈ values m ↔ ∃ k, AList.lookup k m = some v := by
  rw [mem_values]
  exact exists_congr fun k => (AList.mem_lookup_iff.symm.trans Option.mem_def)

end FMap
