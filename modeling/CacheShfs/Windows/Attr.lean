import CacheShfs.Lib.Signed
import CacheShfs.Windows.Fs

/-!
# Times and attributes for WinFsp

`crates/cacheshfs-windows/src/attr.rs`, and what `CacheFs::set_basic_info` makes of the times that
WinFsp passes.  WinFsp counts ticks of 100 ns since 1601, as an unsigned number; the core counts
seconds since 1970, as a signed one.

`unix_to_filetime` saturates.  `filetime_to_unix` does not: it reads a count from `2 ^ 63` on as a
negative number, and subtracts the epoch from it.  That overflows for the first of these counts, as
many as the epoch has ticks, and puts the others before 1601 (`filetime_exact_iff`).
-/

namespace CacheShfs

namespace Windows

open Signed

/-- `FILE_ATTRIBUTE_DIRECTORY`. -/
def fileAttributeDirectory : UInt32 := 0x00000010

/-- `FILE_ATTRIBUTE_NORMAL`. -/
def fileAttributeNormal : UInt32 := 0x00000080

/-- `FILE_ATTRIBUTE_REPARSE_POINT`. -/
def fileAttributeReparsePoint : UInt32 := 0x00000400

/-- `UNIX_EPOCH_IN_FILETIME`: the ticks from 1601 to 1970. -/
def unixEpochInFiletime : ℤ := 116444736000000000

/-- `TICKS_PER_SECOND`. -/
def ticksPerSecond : ℤ := 10000000

/-- `unix_to_filetime`. -/
def unixToFiletime : Option ℤ → UInt64
  | some s =>
      UInt64.ofNat (max (satAdd 64 (satMul 64 s ticksPerSecond) unixEpochInFiletime) 0).toNat
  | none => 0

/-- `filetime_to_unix`, in a release build. -/
def filetimeToUnix (filetime : UInt64) : ℤ :=
  (wrappingSub 64 (wrap 64 filetime.toNat) unixEpochInFiletime).tdiv ticksPerSecond

/-- `filetime_to_unix` in a build with overflow checks.  `none` is a panic. -/
def filetimeToUnixChecked (filetime : UInt64) : Option ℤ :=
  (checkedSub 64 (wrap 64 filetime.toNat) unixEpochInFiletime).map (·.tdiv ticksPerSecond)

/-- `windows_file_attributes`. -/
def windowsFileAttributes (attrs : FileAttributes) : UInt32 :=
  match attrs.kind with
  | .directory => fileAttributeDirectory
  | .symlink => fileAttributeReparsePoint
  | .file => if attrs.mode &&& 0o222 = 0 then fileAttributeReadonly else fileAttributeNormal

/-- The attributes of a directory are those of directories only. -/
lemma windowsFileAttributes_directory (attrs : FileAttributes) :
    windowsFileAttributes attrs = fileAttributeDirectory ↔ attrs.kind = .directory := by
  unfold windowsFileAttributes
  split
  · next hkind => simp [hkind]
  · next hkind => simp [hkind, fileAttributeReparsePoint, fileAttributeDirectory]
  · next hkind =>
      rw [hkind]
      split <;> simp [fileAttributeReadonly, fileAttributeNormal, fileAttributeDirectory]

/-- `allocation_size`. -/
def allocationSize (size : UInt64) : UInt64 :=
  UInt64.ofNat (min (size.toNat + 4095) (2 ^ 64 - 1) / 4096 * 4096)

/-- `FileInfo`. -/
structure FileInfo where
  fileAttributes : UInt32
  reparseTag : UInt32
  fileSize : UInt64
  allocationSize : UInt64
  creationTime : UInt64
  lastAccessTime : UInt64
  lastWriteTime : UInt64
  changeTime : UInt64
  indexNumber : UInt64
  hardLinks : UInt32
  eaSize : UInt32

/-- `fill_file_info`. -/
def fillFileInfo (attrs : FileAttributes) (node : UInt64) : FileInfo :=
  let mtime := unixToFiletime attrs.modifiedUnixSeconds
  let atime := unixToFiletime attrs.accessedUnixSeconds
  let ctime := unixToFiletime attrs.changedUnixSeconds
  { fileAttributes := windowsFileAttributes attrs
    reparseTag := 0
    fileSize := attrs.size
    allocationSize := allocationSize attrs.size
    creationTime := mtime
    lastAccessTime := if atime ≠ 0 then atime else mtime
    lastWriteTime := mtime
    changeTime := if ctime ≠ 0 then ctime else mtime
    indexNumber := node
    hardLinks := 0
    eaSize := 0 }

/-- The attributes that `CacheFs::set_basic_info` sets. -/
def basicInfoAttributes (fileAttributes : UInt32) (lastAccessTime lastWriteTime : UInt64) :
    SetAttributes where
  mode :=
    if fileAttributes ≠ 0 ∧ fileAttributes ≠ 0xFFFFFFFF then
      some (if fileAttributes &&& fileAttributeReadonly ≠ 0 then 0o444 else 0o644)
    else none
  modifiedUnixSeconds :=
    if lastWriteTime ≠ 0 then some (filetimeToUnix lastWriteTime) else none
  accessedUnixSeconds :=
    if lastAccessTime ≠ 0 then some (filetimeToUnix lastAccessTime) else none

/-! ## From seconds to ticks -/

section Ticks

variable {s t : ℤ} {x y : UInt64}

/-- The ticks since 1601, or the bound that is nearest. -/
lemma toNat_unixToFiletime (s : ℤ) :
    ((unixToFiletime (some s)).toNat : ℤ) =
      max 0 (min (s * ticksPerSecond + unixEpochInFiletime) (2 ^ 63 - 1)) := by
  have hleast : least 64 + unixEpochInFiletime ≤ 0 := by decide
  have hclamp : clamp 64 (s * ticksPerSecond + unixEpochInFiletime) =
      max (-2 ^ 63) (min (s * ticksPerSecond + unixEpochInFiletime) (2 ^ 63 - 1)) := rfl
  rw [unixToFiletime, satMul, max_satAdd_clamp (by decide) hleast, hclamp, UInt64.toNat_ofNat']
  omega

lemma unixToFiletime_mono (h : s ≤ t) : unixToFiletime (some s) ≤ unixToFiletime (some t) := by
  have hs := toNat_unixToFiletime s
  have ht := toNat_unixToFiletime t
  rw [ticksPerSecond] at hs ht
  rw [UInt64.le_iff_toNat_le]
  omega

/-! ## From ticks to seconds -/

lemma fits_iff (n : ℤ) : Fits 64 n ↔ -2 ^ 63 ≤ n ∧ n < 2 ^ 63 :=
  and_congr_right fun _ => Int.le_sub_one_iff

/-- The upper half of the counts is read as negative numbers. -/
lemma wrap_toNat (x : UInt64) : wrap 64 x.toNat =
    if (x.toNat : ℤ) < 2 ^ 63 then (x.toNat : ℤ) else x.toNat - 2 ^ 64 := by
  have hlt := x.toNat_lt
  split
  · apply wrap_of_fits (by decide)
    rw [fits_iff]
    omega
  · apply wrap_eq (by decide) (k := 1)
    · rw [fits_iff]
      omega
    · omega

/-- The subtraction overflows for the counts from `2 ^ 63` on that are less than the epoch above
it. -/
lemma filetimeToUnixChecked_eq (x : UInt64) : filetimeToUnixChecked x =
    if (x.toNat : ℤ) < 2 ^ 63 then some ((x.toNat - unixEpochInFiletime).tdiv ticksPerSecond)
    else if (x.toNat : ℤ) < 2 ^ 63 + unixEpochInFiletime then none
    else some ((x.toNat - 2 ^ 64 - unixEpochInFiletime).tdiv ticksPerSecond) := by
  have hlt := x.toNat_lt
  rw [filetimeToUnixChecked, wrap_toNat, unixEpochInFiletime]
  by_cases hlow : (x.toNat : ℤ) < 2 ^ 63
  · have hfits : Fits 64 (x.toNat - 116444736000000000) := by
      rw [fits_iff]
      omega
    rw [if_pos hlow, if_pos hlow, checkedSub_eq_some.mpr ⟨hfits, rfl⟩, Option.map_some]
  · rw [if_neg hlow, if_neg hlow]
    by_cases hmiddle : (x.toNat : ℤ) < 2 ^ 63 + 116444736000000000
    · have hfits : ¬ Fits 64 (x.toNat - 2 ^ 64 - 116444736000000000) := by
        rw [fits_iff]
        omega
      rw [if_pos hmiddle, checkedSub_eq_none.mpr hfits, Option.map_none]
    · have hfits : Fits 64 (x.toNat - 2 ^ 64 - 116444736000000000) := by
        rw [fits_iff]
        omega
      rw [if_neg hmiddle, checkedSub_eq_some.mpr ⟨hfits, rfl⟩, Option.map_some]

/-- Without the check, these counts come out as if they were in range. -/
lemma filetimeToUnix_eq (x : UInt64) : filetimeToUnix x =
    if (x.toNat : ℤ) < 2 ^ 63 + unixEpochInFiletime then
      (x.toNat - unixEpochInFiletime).tdiv ticksPerSecond
    else (x.toNat - 2 ^ 64 - unixEpochInFiletime).tdiv ticksPerSecond := by
  have hlt := x.toNat_lt
  have hwrap : wrappingSub 64 (wrap 64 x.toNat) unixEpochInFiletime =
      if (x.toNat : ℤ) < 2 ^ 63 + unixEpochInFiletime then (x.toNat : ℤ) - unixEpochInFiletime
      else x.toNat - 2 ^ 64 - unixEpochInFiletime := by
    rw [wrap_toNat, wrappingSub, unixEpochInFiletime]
    by_cases hlow : (x.toNat : ℤ) < 2 ^ 63
    · rw [if_pos hlow, if_pos (by omega)]
      apply wrap_of_fits (by decide)
      rw [fits_iff]
      omega
    · rw [if_neg hlow]
      by_cases hmiddle : (x.toNat : ℤ) < 2 ^ 63 + 116444736000000000
      · -- what the cast has taken off comes back when the difference wraps
        rw [if_pos hmiddle]
        apply wrap_eq (by decide) (k := -1)
        · rw [fits_iff]
          omega
        · omega
      · rw [if_neg hmiddle]
        apply wrap_of_fits (by decide)
        rw [fits_iff]
        omega
  rw [filetimeToUnix, hwrap]
  split <;> rfl

/-- In the range of the core, a time comes back as it was. -/
lemma filetime_round (hs : -11644473600 ≤ s)
    (hs' : s * ticksPerSecond + unixEpochInFiletime ≤ 2 ^ 63 - 1) :
    filetimeToUnix (unixToFiletime (some s)) = s ∧
      filetimeToUnixChecked (unixToFiletime (some s)) = some s := by
  have hticks := toNat_unixToFiletime s
  rw [ticksPerSecond, unixEpochInFiletime] at hs' hticks
  have hexact : ((unixToFiletime (some s)).toNat : ℤ) = s * 10000000 + 116444736000000000 := by
    omega
  have hback : (s * 10000000 + 116444736000000000 - 116444736000000000).tdiv 10000000 = s := by
    rw [Int.add_sub_cancel]
    exact Int.mul_tdiv_cancel s (by decide)
  rw [filetimeToUnix_eq, filetimeToUnixChecked_eq, hexact, ticksPerSecond, unixEpochInFiletime,
    hback, if_pos (by omega), if_pos (by omega)]
  exact ⟨rfl, rfl⟩

/-- There is no panic for the counts below `2 ^ 63`, and for those that are the epoch or more above
it. -/
lemma filetimeToUnixChecked_iff (x : UInt64) : filetimeToUnixChecked x ≠ none ↔
    x.toNat < 2 ^ 63 ∨ 2 ^ 63 + unixEpochInFiletime ≤ x.toNat := by
  rw [filetimeToUnixChecked_eq]
  split
  · next hlow => exact iff_of_true (by simp) (.inl (by omega))
  · split
    · next hlow hmiddle => exact iff_of_false (by simp) (by omega)
    · next hlow hmiddle => exact iff_of_true (by simp) (.inr (by omega))

/-- Where there is no panic, the result is the same. -/
lemma filetimeToUnix_of_checked (h : filetimeToUnixChecked x = some s) : filetimeToUnix x = s := by
  obtain ⟨n, hn, rfl⟩ := Option.map_eq_some_iff.mp h
  rw [filetimeToUnix, wrappingSub_of_checkedSub (by decide) hn]

/-- The seconds fall where the counts begin to be read as negative, but for the last tick of the
lower second. -/
lemma filetimeToUnix_le_iff (h : x ≤ y) : filetimeToUnix x ≤ filetimeToUnix y ↔
    y.toNat < 2 ^ 63 + unixEpochInFiletime ∨ 2 ^ 63 + unixEpochInFiletime ≤ x.toNat ∨
      x = 0 ∧ 2 ^ 64 - ticksPerSecond < y.toNat := by
  have hx := x.toNat_lt
  have hy := y.toNat_lt
  have hle : (x.toNat : ℤ) ≤ y.toNat := Int.ofNat_le.mpr (UInt64.le_iff_toNat_le.mp h)
  have hmono : ∀ {a b : ℤ}, a ≤ b → a.tdiv ticksPerSecond ≤ b.tdiv ticksPerSecond :=
    fun hab => Int.tdiv_le_tdiv (by decide) hab
  rw [filetimeToUnix_eq, filetimeToUnix_eq]
  by_cases hylow : (y.toNat : ℤ) < 2 ^ 63 + unixEpochInFiletime
  · rw [if_pos (lt_of_le_of_lt hle hylow), if_pos hylow]
    exact iff_of_true (hmono (by omega)) (.inl hylow)
  · rw [if_neg hylow]
    by_cases hxlow : (x.toNat : ℤ) < 2 ^ 63 + unixEpochInFiletime
    · rw [if_pos hxlow, or_iff_right hylow, or_iff_right (by omega)]
      -- a count that is read as negative comes out before 1601
      have hbefore : ((y.toNat : ℤ) - 2 ^ 64 - unixEpochInFiletime).tdiv ticksPerSecond =
          -((2 ^ 64 + unixEpochInFiletime - y.toNat) / ticksPerSecond) := by
        rw [← Int.tdiv_eq_ediv_of_nonneg (by rw [unixEpochInFiletime]; omega), ← Int.neg_tdiv]
        congr 1
        omega
      rw [hbefore]
      by_cases hzero : x = 0
      · have hfirst : (((0 : UInt64).toNat : ℤ) - unixEpochInFiletime).tdiv ticksPerSecond =
            -11644473600 := by decide
        rw [hzero, hfirst, and_iff_right rfl, ticksPerSecond, unixEpochInFiletime]
        omega
      · have hpos : 0 < x.toNat := by
          by_contra hnot
          exact hzero (UInt64.toNat_inj.mp (by simpa using hnot))
        have hafter : (1 - unixEpochInFiletime).tdiv ticksPerSecond ≤
            (x.toNat - unixEpochInFiletime).tdiv ticksPerSecond := hmono (by omega)
        have hfirst : (1 - unixEpochInFiletime).tdiv ticksPerSecond = -11644473599 := by decide
        rw [hfirst] at hafter
        refine iff_of_false ?_ fun h => hzero h.1
        rw [ticksPerSecond, unixEpochInFiletime] at *
        omega
    · rw [if_neg hxlow]
      exact iff_of_true (hmono (by omega)) (.inr (.inl (by omega)))

/-- There is no panic and the seconds do not fall between two counts. -/
lemma filetimeToUnix_safe_iff (h : x ≤ y) :
    (filetimeToUnixChecked x ≠ none ∧ filetimeToUnixChecked y ≠ none ∧
      filetimeToUnix x ≤ filetimeToUnix y) ↔
    y.toNat < 2 ^ 63 ∨ 2 ^ 63 + unixEpochInFiletime ≤ x.toNat ∨
      x = 0 ∧ 2 ^ 64 - ticksPerSecond < y.toNat := by
  have hle := UInt64.le_iff_toNat_le.mp h
  have hzero : x = 0 ↔ x.toNat = 0 := UInt64.toNat_inj.symm
  rw [filetimeToUnixChecked_iff, filetimeToUnixChecked_iff, filetimeToUnix_le_iff h,
    unixEpochInFiletime, ticksPerSecond, hzero]
  omega

end Ticks

/-! ## Times that are written back -/

/-- A time that a count stands for, and that is not taken for an unknown one. -/
def Representable (s : ℤ) : Prop :=
  -11644473600 < s ∧ s * ticksPerSecond + unixEpochInFiletime ≤ 2 ^ 63 - 1

lemma unixToFiletime_ne_zero {s : ℤ} (h : Representable s) : unixToFiletime (some s) ≠ 0 := by
  intro hzero
  have hticks := toNat_unixToFiletime s
  obtain ⟨hfirst, hlast⟩ := h
  rw [hzero, ticksPerSecond, unixEpochInFiletime] at hticks
  have hnone : (0 : UInt64).toNat = 0 := rfl
  omega

/-- The times that WinFsp is told are set again as they are, and an access time that is not known
is set to the time of the last change. -/
theorem basicInfo_fillFileInfo (attrs : FileAttributes) (node : UInt64) (fileAttributes : UInt32)
    (hmodified : ∀ s ∈ attrs.modifiedUnixSeconds, Representable s)
    (haccessed : ∀ s ∈ attrs.accessedUnixSeconds, Representable s) :
    let info := fillFileInfo attrs node
    let set := basicInfoAttributes fileAttributes info.lastAccessTime info.lastWriteTime
    set.modifiedUnixSeconds = attrs.modifiedUnixSeconds ∧
      set.accessedUnixSeconds = attrs.accessedUnixSeconds.or attrs.modifiedUnixSeconds := by
  have hback : ∀ secs : Option ℤ, (∀ s ∈ secs, Representable s) →
      (if unixToFiletime secs ≠ 0 then some (filetimeToUnix (unixToFiletime secs)) else none) =
        secs := by
    intro secs hsecs
    cases secs with
    | none => rfl
    | some s =>
        have hs := hsecs s rfl
        rw [if_pos (unixToFiletime_ne_zero hs), (filetime_round hs.1.le hs.2).1]
  have hknown : ∀ access modified : Option ℤ, (∀ s ∈ access, Representable s) →
      (if unixToFiletime access ≠ 0 then unixToFiletime access else unixToFiletime modified) =
        unixToFiletime (access.or modified) := by
    intro access modified h
    cases access with
    | none => rfl
    | some s => exact if_pos (unixToFiletime_ne_zero (h s rfl))
  refine ⟨hback _ hmodified, ?_⟩
  simp only [basicInfoAttributes, fillFileInfo, hknown _ _ haccessed]
  apply hback
  intro s hs
  rcases Option.or_eq_some_iff.mp hs with hs | ⟨-, hs⟩
  · exact haccessed s hs
  · exact hmodified s hs

/-- **Seconds become ticks in order and come back; ticks become seconds in order below `2 ^ 63`.**
A time from 1601 on whose ticks fit comes back as it was.  The ticks of a time are those since
1601, or the nearest bound, so they are in order.  A count does not overflow if and only if it is
below `2 ^ 63`, or the epoch or more above it.  Two counts do not overflow and come out in order if
and only if the greater one is below `2 ^ 63`, or the smaller one is the epoch or more above it, or
they are zero and a tick of the last second. -/
theorem filetime_exact_iff (s t : ℤ) (x y : UInt64) :
    (-11644473600 ≤ s → s * ticksPerSecond + unixEpochInFiletime ≤ 2 ^ 63 - 1 →
      filetimeToUnix (unixToFiletime (some s)) = s ∧
        filetimeToUnixChecked (unixToFiletime (some s)) = some s) ∧
    ((unixToFiletime (some s)).toNat : ℤ) =
      max 0 (min (s * ticksPerSecond + unixEpochInFiletime) (2 ^ 63 - 1)) ∧
    (s ≤ t → unixToFiletime (some s) ≤ unixToFiletime (some t)) ∧
    (filetimeToUnixChecked x ≠ none ↔
      x.toNat < 2 ^ 63 ∨ 2 ^ 63 + unixEpochInFiletime ≤ x.toNat) ∧
    (filetimeToUnixChecked x = some s → filetimeToUnix x = s) ∧
    (x ≤ y →
      ((filetimeToUnixChecked x ≠ none ∧ filetimeToUnixChecked y ≠ none ∧
        filetimeToUnix x ≤ filetimeToUnix y) ↔
      y.toNat < 2 ^ 63 ∨ 2 ^ 63 + unixEpochInFiletime ≤ x.toNat ∨
        x = 0 ∧ 2 ^ 64 - ticksPerSecond < y.toNat)) :=
  ⟨filetime_round, toNat_unixToFiletime s, unixToFiletime_mono, filetimeToUnixChecked_iff x,
    filetimeToUnix_of_checked, filetimeToUnix_safe_iff⟩

/-- The count `2 ^ 63` overflows, and the last count comes out before the one below `2 ^ 63`. -/
theorem filetime_overflows :
    filetimeToUnixChecked 9223372036854775808 = none ∧
      filetimeToUnix 9223372036854775807 = 910692730085 ∧
      filetimeToUnix 18446744073709551615 = -11644473600 := by
  decide

end Windows

end CacheShfs
