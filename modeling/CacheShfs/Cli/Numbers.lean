import CacheShfs.Cli.Connect
import CacheShfs.Lib.Checked

/-!
# Sizes and durations

`parse_byte_size` and `parse_duration` of `crates/cacheshfs-cli/src/cli.rs` read a number and a
unit.  What a text says is given without them (`SizeText`, `DurationText`), and is compared with
what they return.

`parse_byte_size` checks its product, so a size is exact or refused.  `parse_duration` does not: a
number of minutes or hours with too many seconds for 64 bits wraps in a release build, and panics
in a build with overflow checks (`parseDurationChecked`).
-/

namespace CacheShfs

namespace Cli

/-! ## What the texts say -/

/-- Decimal digits that write this number. -/
structure Digits (digits : Str) (n : ℕ) : Prop where
  nonempty : digits ≠ []
  all : ∀ c ∈ digits, c.isDigit = true
  value : decimal digits = n

/-- A number is written with digits, perhaps after a plus sign. -/
def NumberText (text : Str) (n : ℕ) : Prop :=
  ∃ digits, (text = digits ∨ text = '+' :: digits) ∧ Digits digits n

/-- The units of a size. -/
inductive SizeUnit
  | bytes
  | kibibytes
  | mebibytes
  | gibibytes

/-- The words for a unit, in lower case. -/
def SizeUnit.words : SizeUnit → List Str
  | .bytes => [[], ['b']]
  | .kibibytes => [['k'], ['k', 'b'], ['k', 'i', 'b']]
  | .mebibytes => [['m'], ['m', 'b'], ['m', 'i', 'b']]
  | .gibibytes => [['g'], ['g', 'b'], ['g', 'i', 'b']]

/-- The bytes of a unit. -/
def SizeUnit.inBytes : SizeUnit → ℕ
  | .bytes => 1
  | .kibibytes => 1024
  | .mebibytes => 1024 ^ 2
  | .gibibytes => 1024 ^ 3

/-- The text is this number of this unit, perhaps with white space between and around them. -/
def SizeText (text : Str) (n : ℕ) (unit : SizeUnit) : Prop :=
  ∃ digits suffix, trim text = digits ++ suffix ∧ Digits digits n ∧
    (trim suffix).map Char.toLower ∈ unit.words

/-- The words for a unit; a number without a unit is one of seconds. -/
def DurationUnit.words : DurationUnit → List Str
  | .milliseconds => [['m', 's']]
  | .seconds => [['s'], []]
  | .minutes => [['m']]
  | .hours => [['h']]

/-- The nanoseconds of a unit. -/
def DurationUnit.inNanoseconds : DurationUnit → ℕ
  | .milliseconds => 10 ^ 6
  | .seconds => 10 ^ 9
  | .minutes => 60 * 10 ^ 9
  | .hours => 60 * 60 * 10 ^ 9

/-- What `parse_duration` multiplies the number of a unit with. -/
def DurationUnit.factor : DurationUnit → ℕ
  | .milliseconds => 1
  | .seconds => 1
  | .minutes => 60
  | .hours => 3600

/-- The text is this number of this unit, perhaps with white space between and around them. -/
def DurationText (text : Str) (n : ℕ) (unit : DurationUnit) : Prop :=
  ∃ body, ∃ word ∈ unit.words, trim text = body ++ word ∧ NumberText (trim body) n

/-- `parse_duration` in a build with overflow checks.  `none` is a panic. -/
def parseDurationChecked (text : Str) : Option (Except String ℕ) :=
  let text := trim text
  let (value, unit) := splitUnit text
  match parseU64 (trim value) with
  | none =>
      some (.error ("invalid duration " ++ quoted text ++ " (use e.g. 30s, 5m, 1h, 500ms)"))
  | some value =>
      match unit with
      | .milliseconds => some (.ok (value * 10 ^ 6))
      | .seconds => some (.ok (value * 10 ^ 9))
      | .minutes => (Checked.mul 64 value 60).map fun seconds => .ok (seconds * 10 ^ 9)
      | .hours => (Checked.mul 64 value 3600).map fun seconds => .ok (seconds * 10 ^ 9)

/-- A number of minutes or hours that fits 64 bits fits them in seconds, too. -/
def SecondsFit (text : Str) : Prop :=
  ∀ n unit, DurationText text n unit → n < 2 ^ 64 → n * unit.factor < 2 ^ 64

/-! ## Numbers -/

section Numbers

variable {text : Str} {n m : ℕ}

lemma numberText_iff : NumberText text n ↔ Digits (dropPlus text) n := by
  constructor
  · rintro ⟨digits, rfl | rfl, hdigits⟩
    · rwa [dropPlus_of_digits hdigits.all]
    · exact hdigits
  · intro hdigits
    refine ⟨dropPlus text, ?_, hdigits⟩
    unfold dropPlus
    split
    · exact .inr rfl
    · exact .inl rfl

/-- A text writes at most one number. -/
lemma NumberText.unique (h : NumberText text n) (h' : NumberText text m) : n = m := by
  rw [← (numberText_iff.mp h).value, (numberText_iff.mp h').value]

/-- The numbers that are read are those that are written, and fit. -/
lemma parseUnsigned_eq_some {bits : ℕ} :
    parseUnsigned bits text = some n ↔ NumberText text n ∧ n < 2 ^ bits := by
  rw [numberText_iff, parseUnsigned]
  constructor
  · intro h
    split at h
    · next hnumber =>
        obtain ⟨hne, hall, hlt⟩ := hnumber
        obtain rfl := Option.some.inj h
        exact ⟨⟨hne, List.all_eq_true.mp hall, rfl⟩, hlt⟩
    · cases h
  · rintro ⟨⟨hne, hall, rfl⟩, hlt⟩
    exact if_pos ⟨hne, List.all_eq_true.mpr hall, hlt⟩

lemma parseU64_eq_some : parseU64 text = some n ↔ NumberText text n ∧ n < 2 ^ 64 :=
  parseUnsigned_eq_some

lemma digits_parseU64 {digits : Str} (h : ∀ c ∈ digits, c.isDigit = true) :
    parseU64 digits = some n ↔ Digits digits n ∧ n < 2 ^ 64 := by
  rw [parseU64_eq_some, numberText_iff, dropPlus_of_digits h]

lemma isWhitespace_of_isDigit {c : Char} (h : c.isDigit = true) : isWhitespace c = false := by
  simp [Char.isDigit, UInt32.le_iff_toNat_le] at h
  simp [isWhitespace, UInt32.le_iff_toNat_le, ← UInt32.toNat_inj]
  omega

lemma toLower_of_isDigit {c : Char} (h : c.isDigit = true) : c.toLower = c := by
  have hupper : ¬ (65 ≤ c.val ∧ c.val ≤ 90) := by
    simp only [Char.isDigit, Bool.and_eq_true, decide_eq_true_eq, ge_iff_le] at h
    grind
  exact dif_neg hupper

end Numbers

/-! ## Sizes -/

section Sizes

variable {text suffix digits : Str} {n : ℕ} {unit : SizeUnit}

lemma multiplier_eq_some {k : ℕ} :
    multiplier suffix = some k ↔ ∃ unit : SizeUnit, suffix ∈ unit.words ∧ unit.inBytes = k := by
  constructor
  · intro h
    unfold multiplier at h
    split at h
    · next hword => exact ⟨.bytes, hword, Option.some.inj h⟩
    · split at h
      · next hword => exact ⟨.kibibytes, hword, Option.some.inj h⟩
      · split at h
        · next hword => exact ⟨.mebibytes, hword, Option.some.inj h⟩
        · split at h
          · next hword => exact ⟨.gibibytes, hword, Option.some.inj h⟩
          · cases h
  · rintro ⟨unit, hword, rfl⟩
    simp only [SizeUnit.words] at hword
    cases unit <;> simp only [List.mem_cons, List.not_mem_nil, or_false] at hword <;>
      rcases hword with rfl | rfl | rfl <;> rfl

/-- No unit begins with a digit. -/
lemma not_digit_of_word {c : Char} {rest : Str} (h : c :: rest ∈ unit.words) :
    c.isDigit = false := by
  have hwords : ∀ word ∈ unit.words, (word.head?.all fun c => !c.isDigit) = true := by
    cases unit <;> decide
  simpa using hwords _ h

/-- The digits of a size end where its unit begins. -/
lemma takeWhile_digits (hdigits : ∀ c ∈ digits, c.isDigit = true)
    (hword : (trim suffix).map Char.toLower ∈ unit.words) :
    (digits ++ suffix).takeWhile Char.isDigit = digits := by
  rw [List.takeWhile_append_of_pos hdigits]
  have hsuffix : suffix.takeWhile Char.isDigit = [] := by
    rcases suffix with _ | ⟨c, suffix⟩
    · rfl
    · apply List.takeWhile_cons_of_neg
      intro hc
      have htrim := trim_append_cons [] (isWhitespace_of_isDigit hc) suffix
      rw [List.nil_append] at htrim
      rw [htrim, List.dropWhile_nil, List.nil_append, List.map_cons, toLower_of_isDigit hc] at hword
      rw [not_digit_of_word hword] at hc
      cases hc
  rw [hsuffix, List.append_nil]

/-- A size is split as `parse_byte_size` splits it. -/
lemma sizeText_iff : SizeText text n unit ↔
    Digits ((trim text).takeWhile Char.isDigit) n ∧
      (trim ((trim text).drop ((trim text).takeWhile Char.isDigit).length)).map Char.toLower ∈
        unit.words := by
  constructor
  · rintro ⟨digits, suffix, htext, hdigits, hword⟩
    rw [htext, takeWhile_digits hdigits.all hword, List.drop_left]
    exact ⟨hdigits, hword⟩
  · rintro ⟨hdigits, hword⟩
    refine ⟨_, _, ?_, hdigits, hword⟩
    exact (List.prefix_iff_eq_append.mp (List.takeWhile_prefix Char.isDigit)).symm

/-- A size is accepted if and only if it is one, is not zero and fits 64 bits, and it is exact. -/
lemma parseByteSize_eq_ok {size : UInt64} : parseByteSize text = .ok size ↔
    ∃ n unit, SizeText text n unit ∧ 0 < n ∧ size.toNat = n * unit.inBytes := by
  constructor
  · intro h
    unfold parseByteSize at h
    simp only at h
    split at h
    · cases h
    · split at h
      · cases h
      · split at h
        · cases h
        · next n hnumber =>
            split at h
            · cases h
            · next hpos =>
                split at h
                · cases h
                · next k hmultiplier =>
                    split at h
                    · next hfits =>
                        obtain rfl := Except.ok.inj h
                        obtain ⟨hdigits, -⟩ :=
                          (digits_parseU64 fun c => List.mem_takeWhile_imp).mp hnumber
                        obtain ⟨unit, hword, rfl⟩ := multiplier_eq_some.mp hmultiplier
                        exact ⟨n, unit, sizeText_iff.mpr ⟨hdigits, hword⟩, by omega,
                          UInt64.toNat_ofNat_of_lt' hfits⟩
                    · cases h
  · rintro ⟨n, unit, htext, hpos, hsize⟩
    obtain ⟨hdigits, hword⟩ := sizeText_iff.mp htext
    have hunit : 0 < unit.inBytes := by cases unit <;> decide
    have hfits : n * unit.inBytes < 2 ^ 64 := hsize ▸ size.toNat_lt
    have hlt : n < 2 ^ 64 := lt_of_le_of_lt (Nat.le_mul_of_pos_right n hunit) hfits
    have hnumber := (digits_parseU64 hdigits.all).mpr ⟨hdigits, hlt⟩
    have hmultiplier := multiplier_eq_some.mpr ⟨unit, hword, rfl⟩
    have hne : trim text ≠ [] := by
      intro hempty
      rw [hempty] at hdigits
      exact hdigits.nonempty rfl
    simp only [parseByteSize, if_neg hne, if_neg hdigits.nonempty, hnumber, if_neg hpos.ne',
      hmultiplier, ← hsize, if_pos size.toNat_lt, UInt64.ofNat_toNat]

end Sizes

/-! ## Durations -/

section Durations

variable {text : Str} {n : ℕ} {unit : DurationUnit}

/-- What is split off is a word for the unit. -/
lemma splitUnit_word (text : Str) :
    ∃ word ∈ (splitUnit text).2.words, text = (splitUnit text).1 ++ word := by
  unfold splitUnit
  split
  · next h =>
      obtain ⟨body, rfl⟩ := h
      exact ⟨['m', 's'], by simp [DurationUnit.words], by simp⟩
  · split
    · next h =>
        obtain ⟨body, rfl⟩ := h
        exact ⟨['s'], by simp [DurationUnit.words], by simp⟩
    · split
      · next h =>
          obtain ⟨body, rfl⟩ := h
          exact ⟨['m'], by simp [DurationUnit.words], by simp⟩
      · split
        · next h =>
            obtain ⟨body, rfl⟩ := h
            exact ⟨['h'], by simp [DurationUnit.words], by simp⟩
        · exact ⟨[], by simp [DurationUnit.words], by simp⟩

/-- A unit is split off where the text before it does not end with a letter of a unit. -/
lemma splitUnit_append {before word : Str} {c : Char} (hm : c ≠ 'm') (hs : c ≠ 's') (hh : c ≠ 'h')
    (hword : word ∈ unit.words) :
    splitUnit (before ++ [c] ++ word) = (before ++ [c], unit) := by
  have hlast : ∀ {text : Str} {d e : Char}, e ≠ d → ¬ [d] <:+ text ++ [e] := by
    rintro text d e hne ⟨rest, heq⟩
    exact hne (List.singleton_inj.mp (List.append_inj' heq rfl).2).symm
  have hms : ∀ {text : Str} {e : Char}, e ≠ 's' → ¬ ['m', 's'] <:+ text ++ [e] :=
    fun hne h => hlast hne ((List.suffix_cons 'm' ['s']).trans h)
  cases unit with
  | milliseconds =>
      obtain rfl := List.mem_singleton.mp hword
      rw [splitUnit, if_pos (List.suffix_append _ _)]
      simp
  | seconds =>
      rcases List.mem_pair.mp hword with rfl | rfl
      · have hboth : ¬ ['m', 's'] <:+ before ++ [c] ++ ['s'] := by
          rintro ⟨rest, heq⟩
          have heq : rest ++ ['m'] ++ ['s'] = before ++ [c] ++ ['s'] := by simpa using heq
          exact hlast hm ⟨rest, List.append_cancel_right heq⟩
        rw [splitUnit, if_neg hboth, if_pos (List.suffix_append _ _)]
        simp
      · rw [List.append_nil, splitUnit, if_neg (hms hs), if_neg (hlast hs), if_neg (hlast hm),
          if_neg (hlast hh)]
  | minutes =>
      obtain rfl := List.mem_singleton.mp hword
      rw [splitUnit, if_neg (hms (by decide)), if_neg (hlast (by decide)),
        if_pos (List.suffix_append _ _)]
      simp
  | hours =>
      obtain rfl := List.mem_singleton.mp hword
      rw [splitUnit, if_neg (hms (by decide)), if_neg (hlast (by decide)),
        if_neg (hlast (by decide)), if_pos (List.suffix_append _ _)]
      simp

/-- The text of a number ends with a digit. -/
lemma NumberText.last (h : NumberText text n) : ∃ before c, text = before ++ [c] ∧
    c.isDigit = true := by
  obtain ⟨digits, htext, hdigits⟩ := h
  obtain ⟨before, c, rfl⟩ := (List.eq_nil_or_concat' digits).resolve_left hdigits.nonempty
  have hc := hdigits.all c (by simp)
  rcases htext with rfl | rfl
  · exact ⟨before, c, rfl, hc⟩
  · exact ⟨'+' :: before, c, rfl, hc⟩

/-- A duration is split as `parse_duration` splits it. -/
lemma durationText_iff : DurationText text n unit ↔
    (splitUnit (trim text)).2 = unit ∧ NumberText (trim (splitUnit (trim text)).1) n := by
  constructor
  · rintro ⟨body, word, hword, htext, hnumber⟩
    obtain ⟨number, d, hlast, hd⟩ := hnumber.last
    have hne : body ≠ [] := by
      rintro rfl
      simp [trim] at hlast
    obtain ⟨before, c, rfl⟩ := (List.eq_nil_or_concat' body).resolve_left hne
    -- what ends with a letter is no number
    have hletter : ∀ letter, isWhitespace letter = false → letter.isDigit = false → c ≠ letter := by
      rintro letter hspace hdigit rfl
      rw [trim_append_cons before hspace [], List.rdropWhile_nil] at hlast
      obtain rfl := List.singleton_inj.mp (List.append_inj' hlast rfl).2
      rw [hdigit] at hd
      cases hd
    rw [htext, splitUnit_append (hletter 'm' (by decide) (by decide))
      (hletter 's' (by decide) (by decide)) (hletter 'h' (by decide) (by decide)) hword]
    exact ⟨rfl, hnumber⟩
  · rintro ⟨rfl, hnumber⟩
    obtain ⟨word, hword, htext⟩ := splitUnit_word (trim text)
    exact ⟨_, word, hword, htext, hnumber⟩

/-- A text says at most one duration. -/
lemma DurationText.unique {n' : ℕ} {unit' : DurationUnit} (h : DurationText text n unit)
    (h' : DurationText text n' unit') : n = n' ∧ unit = unit' := by
  obtain ⟨rfl, hnumber⟩ := durationText_iff.mp h
  obtain ⟨rfl, hnumber'⟩ := durationText_iff.mp h'
  exact ⟨hnumber.unique hnumber', rfl⟩

/-- The nanoseconds of what the product counts. -/
def DurationUnit.counted : DurationUnit → ℕ
  | .milliseconds => 10 ^ 6
  | _ => 10 ^ 9

lemma DurationUnit.counted_pos (unit : DurationUnit) : 0 < unit.counted := by
  cases unit <;> decide

lemma DurationUnit.factor_mul_counted (unit : DurationUnit) :
    unit.factor * unit.counted = unit.inNanoseconds := by
  cases unit <;> rfl

/-- A duration is accepted if its number fits 64 bits, and the product wraps. -/
lemma parseDuration_eq_ok {d : ℕ} : parseDuration text = .ok d ↔
    ∃ n unit, DurationText text n unit ∧ n < 2 ^ 64 ∧
      d = n * unit.factor % 2 ^ 64 * unit.counted := by
  have hproduct : ∀ n, parseU64 (trim (splitUnit (trim text)).1) = some n →
      parseDuration text = .ok (n * (splitUnit (trim text)).2.factor % 2 ^ 64 *
        (splitUnit (trim text)).2.counted) := by
    intro n hparse
    have hmod := Nat.mod_eq_of_lt (parseU64_eq_some.mp hparse).2
    simp only [parseDuration, hparse]
    cases (splitUnit (trim text)).2 with
    | milliseconds =>
        show Except.ok (n * 10 ^ 6) = .ok (n * 1 % 2 ^ 64 * 10 ^ 6)
        rw [Nat.mul_one, hmod]
    | seconds =>
        show Except.ok (n * 10 ^ 9) = .ok (n * 1 % 2 ^ 64 * 10 ^ 9)
        rw [Nat.mul_one, hmod]
    | minutes => rfl
    | hours => rfl
  constructor
  · intro h
    cases hparse : parseU64 (trim (splitUnit (trim text)).1) with
    | none => simp [parseDuration, hparse] at h
    | some n =>
        obtain ⟨hnumber, hlt⟩ := parseU64_eq_some.mp hparse
        rw [hproduct n hparse] at h
        exact ⟨n, _, durationText_iff.mpr ⟨rfl, hnumber⟩, hlt, (Except.ok.inj h).symm⟩
  · rintro ⟨n, unit, htext, hlt, rfl⟩
    obtain ⟨rfl, hnumber⟩ := durationText_iff.mp htext
    exact hproduct n (parseU64_eq_some.mpr ⟨hnumber, hlt⟩)

/-- A duration is exact, if it is accepted, exactly where the product does not wrap. -/
lemma duration_exact_iff :
    (∀ d, parseDuration text = .ok d →
      ∃ n unit, DurationText text n unit ∧ d = n * unit.inNanoseconds) ↔ SecondsFit text := by
  constructor
  · intro h n unit htext hlt
    obtain ⟨n', unit', htext', hexact⟩ :=
      h _ (parseDuration_eq_ok.mpr ⟨n, unit, htext, hlt, rfl⟩)
    obtain ⟨rfl, rfl⟩ := htext.unique htext'
    rw [← unit.factor_mul_counted, ← Nat.mul_assoc] at hexact
    have hmod := Nat.eq_of_mul_eq_mul_right unit.counted_pos hexact
    exact hmod ▸ Nat.mod_lt _ (by decide)
  · intro h d hd
    obtain ⟨n, unit, htext, hlt, rfl⟩ := parseDuration_eq_ok.mp hd
    refine ⟨n, unit, htext, ?_⟩
    rw [Nat.mod_eq_of_lt (h n unit htext hlt), Nat.mul_assoc, unit.factor_mul_counted]

/-- A product that is checked is the one that wraps, where there is no panic. -/
lemma checked_product (n k : ℕ) :
    (((Checked.mul 64 n k).map fun seconds =>
        (Except.ok (seconds * 10 ^ 9) : Except String ℕ)) ≠ none ↔ n * k < 2 ^ 64) ∧
      ∀ result, ((Checked.mul 64 n k).map fun seconds =>
        (Except.ok (seconds * 10 ^ 9) : Except String ℕ)) = some result →
          result = .ok (n * k % 2 ^ 64 * 10 ^ 9) := by
  by_cases hfits : n * k < 2 ^ 64
  · rw [Checked.mul_of_lt hfits, Nat.mod_eq_of_lt hfits]
    exact ⟨iff_of_true (by simp) hfits, fun result h => (Option.some.inj h).symm⟩
  · rw [Checked.mul, if_neg hfits]
    exact ⟨iff_of_false (by simp) hfits, fun result h => by cases h⟩

/-- With overflow checks there is a panic exactly where the product would wrap, and else the
result is the same. -/
lemma parseDurationChecked_eq :
    (parseDurationChecked text ≠ none ↔ SecondsFit text) ∧
      ∀ result, parseDurationChecked text = some result → result = parseDuration text := by
  cases hparse : parseU64 (trim (splitUnit (trim text)).1) with
  | none =>
      refine ⟨iff_of_true (by simp [parseDurationChecked, hparse]) ?_, ?_⟩
      · intro n unit htext hlt
        obtain ⟨-, hnumber⟩ := durationText_iff.mp htext
        rw [parseU64_eq_some.mpr ⟨hnumber, hlt⟩] at hparse
        cases hparse
      · simp [parseDurationChecked, parseDuration, hparse]
  | some n =>
      obtain ⟨hnumber, hlt⟩ := parseU64_eq_some.mp hparse
      have htext : DurationText text n _ := durationText_iff.mpr ⟨rfl, hnumber⟩
      have hfit : SecondsFit text ↔ n * (splitUnit (trim text)).2.factor < 2 ^ 64 := by
        refine ⟨fun h => h n _ htext hlt, fun h n' unit' htext' _ => ?_⟩
        obtain ⟨rfl, rfl⟩ := htext.unique htext'
        exact h
      rw [hfit]
      simp only [parseDurationChecked, parseDuration, hparse]
      cases (splitUnit (trim text)).2 with
      | milliseconds => exact ⟨iff_of_true (by simp) (by simpa [DurationUnit.factor] using hlt),
          fun result h => (Option.some.inj h).symm⟩
      | seconds => exact ⟨iff_of_true (by simp) (by simpa [DurationUnit.factor] using hlt),
          fun result h => (Option.some.inj h).symm⟩
      | minutes => exact checked_product n 60
      | hours => exact checked_product n 3600

end Durations

/-! ## What the command line passes on -/

/-- The chunk size, the lifetime of metadata and the read timeout that are passed on are those
that are written. -/
structure PassedOn (cli : Cli) : Prop where
  cacheChunkSize : ∀ text env config, cli.cacheChunkSize = some text →
    cli.toMountConfig env = .ok config →
      ∃ n unit, SizeText text n unit ∧ config.cacheChunkSize.toNat = n * unit.inBytes
  metadataTtl : ∀ text ttl, cli.metadataTtl = some text → cli.metadataTtlDuration = .ok ttl →
    ∃ n unit, DurationText text n unit ∧ ttl = n * unit.inNanoseconds
  remoteReadTimeout : ∀ text env target options, cli.remoteReadTimeout = some text →
    cli.connectOptions env target = .ok options →
      ∃ n unit, DurationText text n unit ∧ options.readTimeout = n * unit.inNanoseconds

section PassedOn

variable {cli : Cli} {text : Str}

lemma toMountConfig_chunkSize {env : Env} {config : MountConfig}
    (htext : cli.cacheChunkSize = some text) (h : cli.toMountConfig env = .ok config) :
    parseByteSize text = .ok config.cacheChunkSize := by
  simp only [toMountConfig, htext] at h
  split at h
  · cases h
  · split at h
    · cases h
    · split at h
      · cases h
      · next size hsize =>
          rw [hsize, ← Except.ok.inj h]

lemma connectOptions_timeout {env : ConnectEnv} {target : Str} {options : SftpConnectOptions}
    (htext : cli.remoteReadTimeout = some text) (h : cli.connectOptions env target = .ok options) :
    parseDuration text = .ok options.readTimeout := by
  rw [connectOptions_eq] at h
  split at h
  · cases h
  · split at h
    · cases h
    · simp only [finishOptions, htext] at h
      split at h
      · cases h
      · next timeout htimeout =>
          rw [htimeout, ← Except.ok.inj h]
          rfl

/-- Every read timeout that is a duration is passed on in some environment. -/
lemma connectOptions_exists {timeout : ℕ} (htext : cli.remoteReadTimeout = some text)
    (h : parseDuration text = .ok timeout) :
    ∃ env target options, cli.connectOptions env target = .ok options := by
  refine ⟨⟨⟨none, none⟩, ⟨some ['a'], none⟩, fun _ => .ok []⟩, ['h'],
    (connectOptions_succeeds cli _ _).mpr ⟨⟨[], ?_⟩, ⟨⟨['a'], ['h'], 22⟩, rfl⟩, ?_⟩⟩
  · unfold ConfigText
    cases cli.sshConfig <;> rfl
  · intro text' htext'
    rw [htext] at htext'
    obtain rfl := Option.some.inj htext'
    exact ⟨timeout, h⟩

lemma passedOn_iff : PassedOn cli ↔ ∀ text,
    (cli.metadataTtl = some text ∨ cli.remoteReadTimeout = some text) → SecondsFit text := by
  constructor
  · rintro h text (htext | htext)
    · refine duration_exact_iff.mp fun d hd => h.metadataTtl text d htext ?_
      rw [metadataTtlDuration, htext]
      exact hd
    · refine duration_exact_iff.mp fun d hd => ?_
      obtain ⟨env, target, options, hoptions⟩ := connectOptions_exists htext hd
      have htimeout := connectOptions_timeout htext hoptions
      rw [hd] at htimeout
      rw [Except.ok.inj htimeout]
      exact h.remoteReadTimeout text env target options htext hoptions
  · intro h
    refine ⟨?_, ?_, ?_⟩
    · intro text env config htext hconfig
      obtain ⟨n, unit, hsize, -, hexact⟩ :=
        parseByteSize_eq_ok.mp (toMountConfig_chunkSize htext hconfig)
      exact ⟨n, unit, hsize, hexact⟩
    · intro text ttl htext httl
      rw [metadataTtlDuration, htext] at httl
      exact duration_exact_iff.mpr (h text (.inl htext)) ttl httl
    · intro text env target options htext hoptions
      exact duration_exact_iff.mpr (h text (.inr htext)) _ (connectOptions_timeout htext hoptions)

end PassedOn

/-- **Sizes are exact or refused; durations are unless their seconds do not fit.**  A size is
accepted if and only if it is not zero and fits, and is the product of its number and its unit.  A
duration that is accepted is this product, and a build with overflow checks does not panic, if and
only if the seconds of the minutes or hours fit 64 bits; and what the command line passes on is
what is written if and only if this holds of the durations it is given. -/
theorem numbers_exact_iff (text : Str) (cli : Cli) :
    (∀ size, parseByteSize text = .ok size ↔
      ∃ n unit, SizeText text n unit ∧ 0 < n ∧ size.toNat = n * unit.inBytes) ∧
    ((∀ d, parseDuration text = .ok d →
      ∃ n unit, DurationText text n unit ∧ d = n * unit.inNanoseconds) ↔ SecondsFit text) ∧
    (parseDurationChecked text ≠ none ↔ SecondsFit text) ∧
    (∀ result, parseDurationChecked text = some result → result = parseDuration text) ∧
    (PassedOn cli ↔ ∀ given,
      (cli.metadataTtl = some given ∨ cli.remoteReadTimeout = some given) → SecondsFit given) :=
  ⟨fun _ => parseByteSize_eq_ok, duration_exact_iff, parseDurationChecked_eq.1,
    parseDurationChecked_eq.2, passedOn_iff⟩

/-- A number of minutes whose seconds are `2 ^ 64 + 44`. -/
def manyMinutes : Str := Nat.toDigits 10 307445734561825861 ++ ['m']

/-- They are read as 44 seconds, or the program panics. -/
theorem minutes_wrap :
    parseDuration manyMinutes = .ok (44 * 10 ^ 9) ∧ parseDurationChecked manyMinutes = none ∧
      ¬ ∃ n unit, DurationText manyMinutes n unit ∧ 44 * 10 ^ 9 = n * unit.inNanoseconds := by
  refine ⟨rfl, rfl, ?_⟩
  rintro ⟨n, unit, htext, hexact⟩
  have hwritten : DurationText manyMinutes 307445734561825861 .minutes :=
    durationText_iff.mpr ⟨rfl, (parseU64_eq_some.mp rfl).1⟩
  obtain ⟨rfl, rfl⟩ := hwritten.unique htext
  exact absurd hexact (by decide)

end Cli

end CacheShfs
