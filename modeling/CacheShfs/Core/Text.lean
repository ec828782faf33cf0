import CacheShfs.Core.Types
import Mathlib.Data.List.DropRight

/-!
# Texts

The functions of Rust's `str` and `Path` that the command line and the transport read their texts
with.  White space is that of Unicode; cases are those of ASCII.  Paths are those of Unix.
-/

namespace CacheShfs

/-- `char::is_whitespace`. -/
def isWhitespace (c : Char) : Bool :=
  (9 ≤ c.val && c.val ≤ 13) || c.val = 0x20 || c.val = 0x85 || c.val = 0xA0 || c.val = 0x1680 ||
    (0x2000 ≤ c.val && c.val ≤ 0x200A) || c.val = 0x2028 || c.val = 0x2029 || c.val = 0x202F ||
    c.val = 0x205F || c.val = 0x3000

/-- `u8::is_ascii_whitespace`. -/
def isAsciiWhitespace (c : Char) : Bool :=
  c = ' ' || c = '\t' || c = '\n' || c = '\r' || c.val = 12

/-- `str::trim`. -/
def trim (text : Str) : Str := (text.dropWhile isWhitespace).rdropWhile isWhitespace

/-- `str::split_whitespace`. -/
def splitWhitespace (text : Str) : List Str := (text.splitOnP isWhitespace).filter (· ≠ [])

/-- A carriage return at the end is dropped. -/
def dropReturn (line : Str) : Str := if line.getLast? = some '\r' then line.dropLast else line

/-- `str::lines`: a line ends with a line feed, before which a carriage return may stand.  What
follows the last line feed is a line if it is not empty. -/
def lines (text : Str) : List Str :=
  let parts := text.splitOn '\n'
  parts.dropLast.map dropReturn ++ parts.getLast?.toList.filter (· ≠ [])

/-- The number that a sequence of decimal digits writes. -/
def decimal (digits : Str) : ℕ :=
  digits.foldl (fun n c => 10 * n + (c.val.toNat - '0'.val.toNat)) 0

/-- `str::eq_ignore_ascii_case`. -/
def eqIgnoreAsciiCase (a b : Str) : Bool := a.map Char.toLower = b.map Char.toLower

lemma eqIgnoreAsciiCase_symm {a b : Str} (h : eqIgnoreAsciiCase a b = true) :
    eqIgnoreAsciiCase b a = true := by
  simp only [eqIgnoreAsciiCase, decide_eq_true_eq] at h ⊢
  exact h.symm

/-- What follows a plus sign, if there is one. -/
def dropPlus : Str → Str
  | '+' :: rest => rest
  | text => text

/-- `str::parse` for an unsigned integer: decimal digits, perhaps after a plus sign, of a number
that has so many bits. -/
def parseUnsigned (bits : ℕ) (text : Str) : Option ℕ :=
  let digits := dropPlus text
  if digits ≠ [] ∧ digits.all Char.isDigit ∧ decimal digits < 2 ^ bits then some (decimal digits)
  else none

/-- `str::parse::<u16>`. -/
def parseU16 (text : Str) : Option UInt16 := (parseUnsigned 16 text).map UInt16.ofNat

/-- `impl Display for u16`. -/
def displayU16 (n : UInt16) : Str := Nat.toDigits 10 n.toNat

/-- `Path::join` with a relative path. -/
def joinPath (base name : Str) : Str :=
  if base = [] ∨ base.getLast? = some '/' then base ++ name else base ++ '/' :: name

/-- `Path::join`. -/
def pushPath (base path : Str) : Str := if path.head? = some '/' then path else joinPath base path

/-- The environment variables that name the home directory. -/
structure HomeEnv where
  home : Option Str
  userProfile : Option Str

/-- `home_dir`, which the command line and the transport both have. -/
def homeDir (env : HomeEnv) : Option Str := env.home.or env.userProfile

/-! ## Numbers -/

lemma isDigit_of_mem_displayU16 {n : UInt16} {c : Char} (h : c ∈ displayU16 n) :
    c.isDigit = true :=
  Nat.isDigit_of_mem_toDigits (by decide) (by decide) h

/-- What is not a digit does not stand in a number. -/
lemma not_mem_displayU16 (n : UInt16) {c : Char} (hc : c.isDigit = false) : c ∉ displayU16 n := by
  intro h
  rw [isDigit_of_mem_displayU16 h] at hc
  cases hc

lemma displayU16_ne_nil (n : UInt16) : displayU16 n ≠ [] := Nat.toDigits_ne_nil

lemma dropPlus_of_digits {digits : Str} (h : ∀ c ∈ digits, c.isDigit = true) :
    dropPlus digits = digits := by
  unfold dropPlus
  split
  · exact absurd (h '+' List.mem_cons_self) (by decide)
  · rfl

/-- A number that is written is read again. -/
lemma parseU16_displayU16 (n : UInt16) : parseU16 (displayU16 n) = some n := by
  have hdecimal : decimal (displayU16 n) = n.toNat := by
    rw [displayU16, decimal]
    exact Nat.ofDigitChars_ten_toDigits
  have hdigits : (displayU16 n).all Char.isDigit = true :=
    List.all_eq_true.mpr fun c hc => isDigit_of_mem_displayU16 hc
  have hplus : dropPlus (displayU16 n) = displayU16 n :=
    dropPlus_of_digits fun c hc => isDigit_of_mem_displayU16 hc
  have hparse : parseUnsigned 16 (displayU16 n) = some n.toNat := by
    simp only [parseUnsigned, hplus, hdecimal]
    exact if_pos ⟨displayU16_ne_nil n, hdigits, n.toNat_lt⟩
  rw [parseU16, hparse]
  simp

lemma mem_dropPlus {text : Str} {c : Char} (hc : c ≠ '+') (h : c ∈ text) : c ∈ dropPlus text := by
  unfold dropPlus
  split
  · exact (List.mem_cons.mp h).resolve_left hc
  · exact h

/-- Nothing else stands in the text of a number. -/
lemma not_mem_of_parseU16 {text : Str} {n : UInt16} (h : parseU16 text = some n) {c : Char}
    (hc : c.isDigit = false) (hplus : c ≠ '+') : c ∉ text := by
  intro hmem
  obtain ⟨m, hparse, -⟩ := Option.map_eq_some_iff.mp h
  by_cases hdigits : dropPlus text ≠ [] ∧ (dropPlus text).all Char.isDigit ∧
    decimal (dropPlus text) < 2 ^ 16
  · rw [List.all_eq_true.mp hdigits.2.1 c (mem_dropPlus hplus hmem)] at hc
    cases hc
  · simp only [parseUnsigned, if_neg hdigits] at hparse
    cases hparse

/-! ## White space -/

section Trimming

variable {p : Char → Bool} {c : Char}

lemma dropWhile_append_cons (before : Str) (hc : p c = false) (rest : Str) :
    (before ++ c :: rest).dropWhile p = before.dropWhile p ++ c :: rest := by
  induction before with
  | nil => simp [hc]
  | cons d before ih =>
      by_cases hd : p d = true
      · simp [hd, ih]
      · simp [hd]

lemma rdropWhile_append_cons (before : Str) (hc : p c = false) (rest : Str) :
    (before ++ c :: rest).rdropWhile p = before ++ c :: rest.rdropWhile p := by
  induction rest using List.reverseRecOn with
  | nil => simp [hc]
  | append_singleton rest d ih =>
      rw [← List.cons_append, ← List.append_assoc, List.rdropWhile_concat, List.rdropWhile_concat]
      by_cases hd : p d = true
      · rw [if_pos hd, if_pos hd, ih]
      · rw [if_neg hd, if_neg hd, List.append_assoc, List.cons_append]

/-- What is trimmed stands before the first and after the last character that is kept. -/
lemma trim_append_cons (before : Str) (hc : isWhitespace c = false) (rest : Str) :
    trim (before ++ c :: rest) =
      before.dropWhile isWhitespace ++ c :: rest.rdropWhile isWhitespace := by
  rw [trim, dropWhile_append_cons before hc, rdropWhile_append_cons _ hc]

lemma splitWhitespace_append_cons (before : Str) (hc : isWhitespace c = true) (rest : Str) :
    splitWhitespace (before ++ c :: rest) = splitWhitespace before ++ splitWhitespace rest := by
  rw [splitWhitespace, List.splitOnP_append_cons _ _ hc, List.filter_append, splitWhitespace,
    splitWhitespace]

lemma splitWhitespace_rdropWhile (text : Str) :
    splitWhitespace (text.rdropWhile isWhitespace) = splitWhitespace text := by
  induction text using List.reverseRecOn with
  | nil => rfl
  | append_singleton text d ih =>
      rw [List.rdropWhile_concat]
      by_cases hd : isWhitespace d = true
      · rw [if_pos hd, ih, splitWhitespace_append_cons text hd]
        simp [splitWhitespace]
      · rw [if_neg hd]

end Trimming

/-! ## Lines -/

/-- White space at the end is trimmed. -/
lemma trim_concat (text : Str) {c : Char} (hc : isWhitespace c = true) :
    trim (text ++ [c]) = trim text := by
  rw [trim, List.dropWhile_append]
  by_cases hempty : (text.dropWhile isWhitespace).isEmpty = true
  · rw [if_pos hempty, trim, List.isEmpty_iff.mp hempty]
    simp [hc]
  · rw [if_neg hempty, List.rdropWhile_concat_pos _ _ _ hc, trim]

/-- The text with these lines. -/
def ofLines (ls : List Str) : Str := ['\n'].intercalate ls

lemma splitOn_ne_nil (text : Str) : text.splitOn '\n' ≠ [] := List.splitOn_ne_nil _ _

/-- Complete lines before a text are lines of the whole. -/
lemma lines_append (text more : Str) :
    lines (text ++ '\n' :: more) = lines (text ++ ['\n']) ++ lines more := by
  have hmore := splitOn_ne_nil more
  have hend : (text ++ ['\n']).splitOn '\n' = text.splitOn '\n' ++ [[]] := by
    rw [List.splitOn_append_cons_self]
    rfl
  simp only [lines, hend, List.splitOn_append_cons_self, List.dropLast_append_of_ne_nil hmore,
    List.map_append, List.append_assoc, List.getLast?_append_of_ne_nil _ hmore]
  simp

/-- A line feed at the end completes the last line. -/
lemma lines_newline (text : Str) : ∃ before last,
    lines text = before ++ [last].filter (· ≠ []) ∧
      lines (text ++ ['\n']) = before ++ [dropReturn last] := by
  obtain ⟨before, last, hparts⟩ :=
    (List.eq_nil_or_concat' (text.splitOn '\n')).resolve_left (splitOn_ne_nil text)
  have hend : (text ++ ['\n']).splitOn '\n' = text.splitOn '\n' ++ [[]] := by
    rw [List.splitOn_append_cons_self]
    rfl
  refine ⟨before.map dropReturn, last, ?_, ?_⟩
  · simp [lines, hparts]
  · simp [lines, hend, hparts]

lemma lines_ofLines {before : List Str} {last : Str} (h : ∀ l ∈ before ++ [last], '\n' ∉ l) :
    lines (ofLines (before ++ [last])) = before.map dropReturn ++ [last].filter (· ≠ []) := by
  rw [lines, ofLines, List.splitOn_intercalate _ h (by simp)]
  simp

end CacheShfs
