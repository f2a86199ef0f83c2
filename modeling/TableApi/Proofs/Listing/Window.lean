import Mathlib.Algebra.Group.Nat.Defs
import Mathlib.Order.Bounds.Basic
import Mathlib.Tactic.Set
import TableApi.Listing.Window

/-! The window of a page, exactly. Its size is the one that is asked for, or else the default one,
within the largest one. Its page is the one that is asked for as long as the store can count the
rows before it, and otherwise the last page for which it can. -/

namespace TableApi.Window

theorem maxOffset_eq : maxOffset = 2 ^ 63 - 1 := by decide

/-- The page that a parameter denotes: the number in it, or the first page when it holds none or one
below the first. -/
def denotedPage (v : Value) : Nat :=
  match readInt? v with
  | some n => if 1 ≤ n then n.toNat else 1
  | none => 1

/-- The rows before a page can be counted exactly when it is not behind the last page of its
size. -/
theorem pred_mul_le_iff {size : Nat} (hsize : 1 ≤ size) (page : Nat) :
    (page - 1) * size ≤ maxOffset ↔ page ≤ maxOffset / size + 1 := by
  rw [← Nat.le_div_iff_mul_le hsize, Nat.sub_le_iff_le_add]

theorem val_pageOf (v : Value) (size : Positive) :
    (pageOf (readInt? v) size).val = min (denotedPage v) (maxOffset / size.val + 1) := by
  have hdenoted : max ((readInt? v).getD 1).toNat 1 = denotedPage v := by
    unfold denotedPage
    cases readInt? v with
    | none => rfl
    | some n =>
      rw [Option.getD_some]
      dsimp only
      split <;> omega
  rw [← hdenoted]
  rfl

variable {p : Options.Pagination} {requested : Option Int}

theorem val_sizeOf_of_pos {n : Nat} (hn : 0 < n) :
    (sizeOf p (some n)).val = min n p.maxSize.val := by
  have hmax : 1 ≤ p.maxSize.val := p.maxSize.2
  have hsize : (sizeOf p (some n)).val =
      max (min (if n = 0 then p.defaultSize.val else n) p.maxSize.val) 1 := rfl
  rw [hsize, if_neg (by omega)]
  omega

/-- Without a positive number the size is the default one. -/
theorem val_sizeOf_of_not_pos (h : ∀ n, requested = some n → n ≤ 0) :
    (sizeOf p requested).val = min p.defaultSize.val p.maxSize.val := by
  have hdefault : 1 ≤ p.defaultSize.val := p.defaultSize.2
  have hmax : 1 ≤ p.maxSize.val := p.maxSize.2
  have hsize : (sizeOf p requested).val = max (min p.defaultSize.val p.maxSize.val) 1 := by
    unfold sizeOf
    cases requested with
    | none => rfl
    | some n =>
      cases n with
      | ofNat n =>
        have hzero : n = 0 := Nat.le_zero.1 (Int.ofNat_le.1 (h _ rfl))
        rw [hzero]
        rfl
      | negSucc n => rfl
  rw [hsize]
  omega

theorem size_le_maxSize (p : Options.Pagination) (params : Entries Value) :
    (ofParams p params).size.val ≤ p.maxSize.val :=
  max_le (Nat.min_le_right _ _) p.maxSize.2

/-- The window that the values of the two parameters ask for, up to the limit of the store: an
offset is an integer of 64 bits. -/
structure IsExact (p : Options.Pagination) (page size : Value) (w : Window) : Prop where
  page_pos : 1 ≤ w.page.val
  size_pos : 1 ≤ w.size.val
  size_le : w.size.val ≤ p.maxSize.val
  reached : (w.page.val - 1) * w.size.val ≤ 2 ^ 63 - 1
  page_eq : (denotedPage page - 1) * w.size.val ≤ 2 ^ 63 - 1 → w.page.val = denotedPage page
  page_greatest : 2 ^ 63 - 1 < (denotedPage page - 1) * w.size.val →
    IsGreatest {k | (k - 1) * w.size.val ≤ 2 ^ 63 - 1} w.page.val
  size_eq : ∀ n : Nat, readInt? size = some (n : Int) → 0 < n → w.size.val = min n p.maxSize.val
  size_default : (∀ n, readInt? size = some n → n ≤ 0) →
    w.size.val = min p.defaultSize.val p.maxSize.val

/-- The window is what the parameters ask for, in every case. -/
theorem isExact_ofParams (p : Options.Pagination) (params : Entries Value) :
    IsExact p (Params.value params p.pageParam) (Params.value params p.sizeParam)
      (ofParams p params) := by
  set w := ofParams p params
  set page := Params.value params p.pageParam
  have hpage : w.page.val = min (denotedPage page) (maxOffset / w.size.val + 1) :=
    val_pageOf page w.size
  have hreach := pred_mul_le_iff w.size.2
  rw [maxOffset_eq] at hpage hreach
  refine ⟨w.page.2, w.size.2, size_le_maxSize p params, ?_, ?_, ?_, ?_, ?_⟩
  · rw [hreach, hpage]
    exact min_le_right _ _
  · rw [hreach, hpage]
    exact min_eq_left
  · intro hfar
    have hlast : w.page.val = (2 ^ 63 - 1) / w.size.val + 1 := by
      rw [hpage]
      exact min_eq_right (Nat.le_of_lt (Nat.lt_of_not_le (mt (hreach _).2 (Nat.not_le.2 hfar))))
    rw [hlast]
    exact ⟨(hreach _).2 (Nat.le_refl _), fun k hk => (hreach k).1 hk⟩
  · intro n hread hn
    have hsize : w.size = sizeOf p (some (n : Int)) := by
      rw [← hread]
      rfl
    rw [hsize, val_sizeOf_of_pos hn]
  · exact fun hnone => val_sizeOf_of_not_pos hnone

end TableApi.Window
