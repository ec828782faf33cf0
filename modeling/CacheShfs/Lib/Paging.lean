import Mathlib.Data.Int.Basic
import Mathlib.Data.List.Count
import Mathlib.Tactic.Linarith
import CacheShfs.Lib.Machine

/-!
# Reading a changing list page by page

A reader gets a list in pages: each request skips as many items as the reader has got so far, and
returns as many as fit.  Between two requests the list may change in any way, and the position
the reader continues at stays the same number.

`count_seen` says how often the reader gets an item: as often as the last list has it behind the
cursor, corrected by what moved across the cursor between the requests.  So a reader that reaches
the end gets an item that every list has once exactly once, if and only if the item moved forward
and backward across the cursor equally often (`seen_once_iff`).
-/

namespace Paging

open Machine

variable {α : Type*}

/-- A request for a page: the list at that moment, and how many items fit. -/
structure Request (α : Type*) where
  items : List α
  capacity : ℕ

/-- The position of a reader, and the items it has got. -/
structure Reader (α : Type*) where
  offset : ℕ
  seen : List α

/-- The items of one page. -/
def page (offset : ℕ) (r : Request α) : List α := (r.items.drop offset).take r.capacity

/-- The reader after one request. -/
def Reader.request (s : Reader α) (r : Request α) : Reader α :=
  ⟨s.offset + (page s.offset r).length, s.seen ++ page s.offset r⟩

/-- A reader that has got nothing. -/
def Reader.start : Reader α := ⟨0, []⟩

/-- An empty page, of a request that has room, is at or past the end. -/
lemma length_le_of_page_nil {offset : ℕ} {r : Request α} (hroom : 0 < r.capacity)
    (h : page offset r = []) : r.items.length ≤ offset := by
  have hlen := congrArg List.length h
  simp only [page, List.length_take, List.length_drop, List.length_nil] at hlen
  omega

variable [BEq α]

/-- How often the list has `x` before the cursor. -/
def behind (x : α) (offset : ℕ) (items : List α) : ℕ := (items.take offset).count x

lemma behind_zero (x : α) (items : List α) : behind x 0 items = 0 := by simp [behind]

lemma behind_of_length_le {x : α} {offset : ℕ} {items : List α} (h : items.length ≤ offset) :
    behind x offset items = items.count x := by
  rw [behind, List.take_of_length_le h]

/-- A page has what comes behind the cursor with it. -/
lemma behind_add_count_page (x : α) (offset : ℕ) (r : Request α) :
    behind x offset r.items + (page offset r).count x =
      behind x (offset + (page offset r).length) r.items := by
  have hpage : page offset r = (r.items.drop offset).take (page offset r).length := by
    simp only [page, List.length_take, List.length_drop]
    rw [List.take_eq_take_iff]
    simp
  rw [behind, behind, List.take_add, List.count_append, ← hpage]

/-- What moves from ahead of the cursor to behind it between two consecutive requests, less what
moves back, summed over the requests.  `offset` is the cursor before the first one. -/
def overtaken (x : α) : ℕ → List (Request α) → ℤ
  | offset, r :: r' :: rs =>
      (behind x (offset + (page offset r).length) r'.items -
          behind x (offset + (page offset r).length) r.items) +
        overtaken x (offset + (page offset r).length) (r' :: rs)
  | _, _ => 0

/-- **How often an item is seen** after a request `last`. -/
theorem count_seen (x : α) (s : Reader α) (rs : List (Request α)) (last : Request α) :
    ((run Reader.request s (rs ++ [last])).seen.count x : ℤ) =
      s.seen.count x - behind x s.offset ((rs ++ [last]).headD last).items +
        behind x (run Reader.request s (rs ++ [last])).offset last.items -
        overtaken x s.offset (rs ++ [last]) := by
  induction rs generalizing s with
  | nil =>
      have hpage := behind_add_count_page x s.offset last
      simp only [List.nil_append, run_cons, run_nil, Reader.request, List.count_append,
        List.headD_cons, overtaken]
      omega
  | cons r rs ih =>
      have hpage := behind_add_count_page x s.offset r
      rw [List.cons_append, run_cons, ih]
      cases rs with
      | nil =>
          simp only [Reader.request, List.nil_append, List.headD_cons, overtaken,
            List.count_append]
          omega
      | cons r' rs =>
          simp only [Reader.request, List.cons_append, List.headD_cons, overtaken,
            List.count_append]
          omega

/-- **A full reading.**  Where every list has `x` once, and the last page is empty though it had
room, the reader has got `x` exactly once, if and only if `x` has moved across the cursor equally
often in both directions. -/
theorem seen_once_iff {x : α} {rs : List (Request α)} {last : Request α}
    (hroom : 0 < last.capacity)
    (hempty : page (run Reader.request Reader.start rs).offset last = [])
    (honce : ∀ r ∈ rs ++ [last], r.items.count x = 1) :
    (run Reader.request Reader.start rs).seen.count x = 1 ↔
      overtaken x 0 (rs ++ [last]) = 0 := by
  have hrun : run Reader.request Reader.start (rs ++ [last]) =
      run Reader.request Reader.start rs := by
    rw [run_append, run_cons, run_nil, Reader.request, hempty]
    simp
  have hcount := count_seen x Reader.start rs last
  rw [hrun, behind_of_length_le (length_le_of_page_nil hroom hempty),
    honce last (by simp)] at hcount
  simp only [Reader.start, behind_zero, List.count_nil] at hcount ⊢
  omega

end Paging
