import TableApi.Store.Cell

/-! The order of cells. A cell stands first by its class and within its class by what is in it: the
magnitude of a number, the characters of a text, the bytes of a byte string. So the order of cells
is a lexicographic order, and any three cells are ordered consistently. Nulls stand before all other
cells. -/

namespace TableApi

open Std

namespace Magnitude

/-- The part of the extended line that a magnitude is in. -/
def side : Magnitude → Nat
  | bottom => 0
  | units _ => 1
  | top => 2

def count : Magnitude → Int
  | units n => n
  | _ => 0

instance : Ord Magnitude := ⟨order⟩

theorem compare_eq (a b : Magnitude) :
    compare a b = compareLex (compareOn side) (compareOn count) a b := by
  cases a <;> cases b <;> rfl

instance : TransOrd Magnitude := by
  have h : (compare : Magnitude → Magnitude → Ordering) =
      compareLex (compareOn side) (compareOn count) := by
    funext a b
    exact compare_eq a b
  rw [TransOrd, h]
  infer_instance

end Magnitude

namespace Cell

def measure (c : Cell) : Magnitude := c.magnitude?.getD .bottom

def string : Cell → String
  | text s => s
  | _ => ""

def bytes : Cell → List Nat
  | blob bs => bs
  | _ => []

theorem bytesOrder_eq (xs ys : List Nat) : order.bytesOrder xs ys = compare xs ys := by
  induction xs generalizing ys with
  | nil => cases ys <;> rfl
  | cons x xs ih =>
    cases ys with
    | nil => rfl
    | cons y ys =>
      rw [order.bytesOrder, ih, List.compare_eq_compareLex, List.compareLex_cons_cons]

theorem of_magnitude? {c : Cell} {x : Magnitude} (h : c.magnitude? = some x) :
    c.rank = 2 ∧ c.measure = x ∧ c.string = "" ∧ c.bytes = [] := by
  have hmeasure : c.measure = x := by rw [measure, h, Option.getD_some]
  cases c with
  | integer n => exact ⟨rfl, hmeasure, rfl, rfl⟩
  | real d =>
    cases d with
    | nan => cases h
    | infinite negative => exact ⟨rfl, hmeasure, rfl, rfl⟩
    | finite negative units => exact ⟨rfl, hmeasure, rfl, rfl⟩
  | null => cases h
  | text s => cases h
  | blob bs => cases h

theorem rank_cases (c : Cell) :
    c.rank = 0 ∧ c = null ∨ c.rank = 1 ∧ c = real .nan ∨ (c.rank = 2 ∧ ∃ x, c.magnitude? = some x) ∨
      (c.rank = 3 ∧ ∃ s, c = text s) ∨ c.rank = 4 ∧ ∃ bs, c = blob bs := by
  cases c with
  | null => simp [rank]
  | integer n => simp [rank, magnitude?]
  | real d =>
    cases d with
    | nan => simp [rank]
    | infinite negative => cases negative <;> simp [rank, magnitude?, Magnitude.ofDouble?]
    | finite negative units => simp [rank, magnitude?, Magnitude.ofDouble?]
  | text s => simp [rank]
  | blob bs => simp [rank]

theorem of_rank_eq {a b : Cell} (h : a.rank = b.rank) :
    a = b ∨ (∃ x y, a.magnitude? = some x ∧ b.magnitude? = some y) ∨
      (∃ s t, a = text s ∧ b = text t) ∨ ∃ x y, a = blob x ∧ b = blob y := by
  rcases rank_cases a with ⟨ha, rfl⟩ | ⟨ha, rfl⟩ | ⟨ha, x, hx⟩ | ⟨ha, s, rfl⟩ | ⟨ha, x, rfl⟩ <;>
  rcases rank_cases b with ⟨hb, rfl⟩ | ⟨hb, rfl⟩ | ⟨hb, y, hy⟩ | ⟨hb, t, rfl⟩ | ⟨hb, y, rfl⟩ <;>
  first
    | exact .inl rfl
    | exact .inr (.inl ⟨x, y, hx, hy⟩)
    | exact .inr (.inr (.inl ⟨s, t, rfl, rfl⟩))
    | exact .inr (.inr (.inr ⟨x, y, rfl, rfl⟩))
    | omega

/-- Cells are ordered by their class, and in a class by what is in them. -/
theorem order_eq (a b : Cell) : a.order b =
    compareLex (compareOn rank) (compareLex (compareOn measure)
      (compareLex (compareOn string) (compareOn bytes))) a b := by
  unfold order
  split
  · simp [compareLex, compareOn, rank, measure, magnitude?, string, bytes]
  · simp [compareLex, compareOn, rank, measure, magnitude?, string, bytes, bytesOrder_eq]
  · next htexts hblobs =>
    split
    · next x y hx hy =>
      obtain ⟨hrank, hmeasure, hstring, hbytes⟩ := of_magnitude? hx
      obtain ⟨hrank', hmeasure', hstring', hbytes'⟩ := of_magnitude? hy
      simp [compareLex, compareOn, *]
      rfl
    · next hnumbers =>
      rcases Nat.lt_trichotomy a.rank b.rank with hrank | hrank | hrank
      · simp [compareLex, compareOn, Nat.compare_eq_lt.2 hrank]
      · rcases of_rank_eq hrank with rfl | ⟨x, y, hx, hy⟩ | ⟨s, t, rfl, rfl⟩ | ⟨x, y, rfl, rfl⟩
        · simp [compareLex, compareOn]
        · exact absurd hy (hnumbers x y hx)
        · exact absurd rfl (htexts s t rfl)
        · exact absurd rfl (hblobs x y rfl)
      · simp [compareLex, compareOn, Nat.compare_eq_gt.2 hrank]

instance : TransCmp order := by
  have h : order = compareLex (compareOn rank) (compareLex (compareOn measure)
      (compareLex (compareOn string) (compareOn bytes))) := by
    funext a b
    exact order_eq a b
  rw [h]
  infer_instance

/-- Nulls stand before all other cells. -/
theorem order_null_left {c : Cell} (h : c ≠ null) : order null c = .lt := by
  cases c with
  | null => exact absurd rfl h
  | real d => cases d <;> rfl
  | integer n => rfl
  | text s => rfl
  | blob bs => rfl

end Cell

end TableApi
