import Mathlib.Data.List.Perm.Basic
import TableApi.Proofs.Statement.Rows
import TableApi.Proofs.Store.Order

/-! The order of the rows of a statement. The terms of the order compare rows lexicographically and
any three rows consistently, so the rows are stably sorted: none stands behind one that it precedes,
and rows that no term tells apart stay as they stood. There is one list of this kind only, and
selecting from it gives the same as sorting what is selected. That ties stay as they stood is taken
from a store that goes through its table; one that goes through an index may turn them around. -/

namespace TableApi

open Std

/-! ### Stable sorts -/

/-- The list `ys` is the list `xs` stably sorted: nothing stands behind what it precedes, and what
is tied with one element stands as it did. -/
structure IsStableSort {α : Type} (precedes tied : α → α → Prop) [DecidableRel tied]
    (xs ys : List α) : Prop where
  perm : ys.Perm xs
  sorted : ys.Pairwise fun a b => ¬ precedes b a
  stable : ∀ x, (ys.filter fun y => tied x y) = xs.filter fun y => tied x y

namespace IsStableSort

variable {α : Type}

theorem congr {precedes tied precedes' tied' : α → α → Prop} [DecidableRel tied]
    [DecidableRel tied'] (hprecedes : ∀ a b, precedes a b ↔ precedes' a b)
    (htied : ∀ a b, tied a b ↔ tied' a b) {xs ys : List α} (h : IsStableSort precedes tied xs ys) :
    IsStableSort precedes' tied' xs ys where
  perm := h.perm
  sorted := h.sorted.imp fun hab hba => hab ((hprecedes _ _).2 hba)
  stable x := by simpa only [htied] using h.stable x

/-- Of a stably sorted list any selection is stably sorted. -/
theorem filter {precedes tied : α → α → Prop} [DecidableRel tied] {xs ys : List α}
    (h : IsStableSort precedes tied xs ys) (p : α → Bool) :
    IsStableSort precedes tied (xs.filter p) (ys.filter p) where
  perm := h.perm.filter p
  sorted := h.sorted.filter p
  stable x := by
    simp only [List.filter_filter, Bool.and_comm _ (p _)]
    rw [← List.filter_filter, ← List.filter_filter, h.stable]

section Comparison

variable {cmp : α → α → Ordering} [TransCmp cmp] {xs ys zs : List α}

abbrev By (cmp : α → α → Ordering) (xs ys : List α) : Prop :=
  IsStableSort (fun a b => cmp a b = .lt) (fun a b => cmp a b = .eq) xs ys

/-- Sorting by merging is stable. -/
theorem mergeSort (xs : List α) : By cmp xs (xs.mergeSort fun a b => cmp a b != .gt) := by
  have hle : (fun a b => cmp a b != .gt) = fun a b => (cmp a b).isLE := by
    funext a b
    cases cmp a b <;> rfl
  have htrans : ∀ a b c, (cmp a b).isLE = true → (cmp b c).isLE = true → (cmp a c).isLE = true :=
    fun _ _ _ => TransCmp.isLE_trans
  have htotal : ∀ a b, ((cmp a b).isLE || (cmp b a).isLE) = true := by
    intro a b
    have hswap : cmp b a = (cmp a b).swap := OrientedCmp.eq_swap
    rw [hswap]
    cases cmp a b <;> rfl
  rw [hle]
  refine ⟨List.mergeSort_perm _ _, ?_, ?_⟩
  · exact (List.pairwise_mergeSort htrans htotal xs).imp OrientedCmp.not_lt_of_isLE
  · -- What is tied with one element is sorted as it stands, so sorting leaves it as a sublist.
    intro x
    have htied : (xs.filter fun y => cmp x y = .eq).Pairwise fun a b => (cmp a b).isLE = true := by
      refine List.pairwise_of_forall_mem_list fun a ha b hb => ?_
      have hxa : cmp x a = .eq := by simpa using (List.mem_filter.1 ha).2
      have hxb : cmp x b = .eq := by simpa using (List.mem_filter.1 hb).2
      exact TransCmp.isLE_trans (Ordering.isLE_of_eq_eq (OrientedCmp.eq_symm hxa))
        (Ordering.isLE_of_eq_eq hxb)
    have hsublist := (List.sublist_mergeSort htrans htotal htied List.filter_sublist).filter
      fun y => decide (cmp x y = .eq)
    rw [List.filter_filter] at hsublist
    simp only [Bool.and_self] at hsublist
    exact (hsublist.eq_of_length ((List.mergeSort_perm _ _).filter _).length_eq.symm).symm

theorem not_precedes_head {z : α} (h : (z :: zs).Pairwise fun a b => ¬ cmp b a = .lt) {y : α}
    (hy : y ∈ z :: zs) : cmp y z ≠ .lt := by
  rcases List.mem_cons.1 hy with rfl | hrest
  · have hself : cmp y y = .eq := ReflCmp.compare_self
    rw [hself]
    nofun
  · exact (List.pairwise_cons.1 h).1 y hrest

/-- A list can be stably sorted in one way only. -/
theorem unique (hy : By cmp xs ys) (hz : By cmp xs zs) : ys = zs := by
  obtain ⟨hperm, hysorted, hties⟩ : ys.Perm zs ∧ (ys.Pairwise fun a b => ¬ cmp b a = .lt) ∧
      ∀ x, (ys.filter fun y => cmp x y = .eq) = zs.filter fun y => cmp x y = .eq :=
    ⟨hy.perm.trans hz.perm.symm, hy.sorted, fun x => (hy.stable x).trans (hz.stable x).symm⟩
  have hzsorted := hz.sorted
  clear hy hz
  induction ys generalizing zs with
  | nil => exact hperm.nil_eq
  | cons y ys ih =>
    cases zs with
    | nil => exact hperm.eq_nil
    | cons z zs =>
      -- The two heads are tied, so each is the first of what is tied with it.
      have htied : cmp y z = .eq := by
        have hyz := not_precedes_head hzsorted (hperm.mem_iff.1 List.mem_cons_self)
        have hzy := not_precedes_head hysorted (hperm.mem_iff.2 List.mem_cons_self)
        cases h : cmp y z with
        | lt => exact absurd h hyz
        | eq => rfl
        | gt => exact absurd (OrientedCmp.lt_of_gt h) hzy
      obtain rfl : y = z := by
        have hfirst := hties y
        rw [List.filter_cons_of_pos (by simp [ReflCmp.compare_self]),
          List.filter_cons_of_pos (by simp [htied])] at hfirst
        exact (List.cons.inj hfirst).1
      have hrest := ih hperm.cons_inv hysorted.of_cons ?_ hzsorted.of_cons
      · rw [hrest]
      · intro x
        have hx := hties x
        by_cases hxy : cmp x y = .eq
        · rw [List.filter_cons_of_pos (by simp [hxy]), List.filter_cons_of_pos (by simp [hxy])] at hx
          exact (List.cons.inj hx).2
        · rwa [List.filter_cons_of_neg (by simp [hxy]),
            List.filter_cons_of_neg (by simp [hxy])] at hx

end Comparison

end IsStableSort

namespace Select

/-! ### Rows -/

/-- The order of two rows by one sort term. -/
def termOrder (model? : Option Model) (o : Ordered) (a b : Row) : Ordering :=
  let m := Clause.meaning model? o.term
  if o.direction? = some .descending then (m.value b).order (m.value a)
  else (m.value a).order (m.value b)

instance transCmp_termOrder (model? : Option Model) (o : Ordered) :
    TransCmp (termOrder model? o) := by
  have hascending : TransCmp fun a b =>
      ((Clause.meaning model? o.term).value a).order ((Clause.meaning model? o.term).value b) :=
    { eq_swap := OrientedCmp.eq_swap, isLE_trans := TransCmp.isLE_trans }
  unfold termOrder
  by_cases h : o.direction? = some .descending
  · simp only [if_pos h]
    exact TransCmp.opposite
  · simp only [if_neg h]
    exact hascending

theorem rowOrder_cons (model? : Option Model) (o : Ordered) (rest : List Ordered) (a b : Row) :
    rowOrder model? (o :: rest) a b =
      (termOrder model? o a b).then (rowOrder model? rest a b) := by
  have hswap : ∀ x y : Cell, (x.order y).swap = y.order x := fun _ _ => OrientedCmp.eq_swap.symm
  simp only [rowOrder, termOrder, hswap]

/-- The comparison of rows by sort terms is consistent. -/
instance transCmp_rowOrder (model? : Option Model) (order : List Ordered) :
    TransCmp (rowOrder model? order) := by
  induction order with
  | nil => exact { eq_swap := rfl, isLE_trans := fun _ _ => rfl }
  | cons o rest ih =>
    have h : rowOrder model? (o :: rest) = compareLex (termOrder model? o) (rowOrder model? rest) := by
      funext a b
      exact rowOrder_cons model? o rest a b
    rw [h]
    infer_instance

/-- The order of a statement sorts its rows stably. -/
theorem isStableSort_sorted (s : Select) (rows : List Row) :
    IsStableSort.By (rowOrder s.model? s.order) rows (s.sorted rows) := by
  unfold sorted
  split
  · next h =>
    rw [List.isEmpty_iff.1 h]
    exact ⟨List.Perm.refl _, List.pairwise_of_forall fun _ _ => nofun, fun _ => rfl⟩
  · exact IsStableSort.mergeSort rows

/-- Rows that a store may give for a statement: those that match, in its order. What the order does
not tell apart stands as the store likes, which may read the rows through an index. -/
def MayGive (s : Select) (store : Store) (rows : List Row) : Prop :=
  ∃ arranged, arranged.Perm (s.matching (s.source store)) ∧
    (arranged.Pairwise fun a b => ¬ rowOrder s.model? s.order b a = .lt) ∧
    rows = s.windowed arranged

/-- A store that keeps rows in the order of their numbers and sorts them stably is one of them. -/
theorem mayGive_rowsOf (s : Select) (store : Store) : s.MayGive store (s.rowsOf store) :=
  have hsorted := s.isStableSort_sorted (s.matching (s.source store))
  ⟨_, hsorted.perm, hsorted.sorted, rfl⟩

/-- What is selected can be selected before sorting or after. -/
theorem sorted_filter (s : Select) (p : Row → Bool) (rows : List Row) :
    s.sorted (rows.filter p) = (s.sorted rows).filter p :=
  (s.isStableSort_sorted _).unique ((s.isStableSort_sorted rows).filter p)

end Select

end TableApi
