import TableApi.Proofs.Store.Keys
import TableApi.Proofs.Store.Order

/-! Keys are unique. Every row that is written is checked against the other rows of its table, by
the primary key and by every unique column, so that no two rows of a table ever have a key in
common. Equality of cells is symmetric, and so it does not matter which of two rows was written
last. -/

namespace TableApi.Store

variable {σ : Schema} {s s' : Store} {m : Model} {key : List Column} {row next : Row}
  {rows others : List Row}

/-! ### Equal cells -/

theorem sameCell_comm (a b : Cell) : sameCell a b = sameCell b a := by
  have hswap : (b.order a == .eq) = (a.order b == .eq) := by
    have horder : b.order a = (a.order b).swap := Std.OrientedCmp.eq_swap
    rw [horder]
    cases a.order b <;> rfl
  have hcompares (x y : Cell) :
      sameCell x y = (!x.isNull && !y.isNull && (x.order y == .eq)) := rfl
  rw [hcompares, hcompares, hswap, Bool.and_comm (!a.isNull)]

theorem sameCell_self {cell : Cell} (h : cell.isNull = false) : sameCell cell cell = true := by
  have hcompares : sameCell cell cell =
      (!cell.isNull && !cell.isNull && (cell.order cell == .eq)) := rfl
  have horder : cell.order cell = .eq := Std.ReflCmp.compare_self
  rw [hcompares, h, horder]
  rfl

theorem clashes_comm (a b : Row) (key : List Column) : clashes a b key = clashes b a key := by
  simp only [clashes, sameCell_comm]

/-! ### Rows -/

/-- Rows no two of which have a key of their model in common. -/
def Unique (m : Model) (rows : List Row) : Prop :=
  ∀ key ∈ keysOf m, ∀ a ∈ rows, ∀ b ∈ rows, clashes a b key = true → a = b

theorem unique_nil (m : Model) : Unique m [] := fun _ _ _ ha => nomatch ha

theorem Unique.subset (h : Unique m rows) (hsub : ∀ r ∈ others, r ∈ rows) : Unique m others :=
  fun key hkey a ha b hb => h key hkey a (hsub a ha) b (hsub b hb)

/-- A row that shares no key with the others is put among them. -/
theorem Unique.insertRow (h : Unique m others)
    (hrow : ∀ key ∈ keysOf m, ∀ other ∈ others, clashes row other key = false) :
    Unique m (insertRow row others) := by
  intro key hkey a ha b hb hclash
  rcases mem_insertRow.1 ha with hnew | hold <;> rcases mem_insertRow.1 hb with hnew' | hold'
  · rw [hnew, hnew']
  · rw [hnew, hrow key hkey b hold'] at hclash
    cases hclash
  · rw [hnew', clashes_comm, hrow key hkey a hold] at hclash
    cases hclash
  · exact h key hkey a hold b hold' hclash

theorem unique_without (h : Unique m rows) (row : Row) : Unique m (without row rows) :=
  h.subset fun _ hr => (List.mem_filter.1 hr).1

theorem Unique.clashes_without (h : Unique m rows) (hrow : row ∈ rows) :
    ∀ key ∈ keysOf m, ∀ other ∈ without row rows, clashes row other key = false := by
  intro key hkey other hother
  obtain ⟨hmem, hnumber⟩ := List.mem_filter.1 hother
  rw [Bool.eq_false_iff]
  intro hclash
  rw [h key hkey row hrow other hmem hclash] at hnumber
  simp at hnumber

/-! ### Stores -/

def UniqueKeys (s : Store) : Prop := ∀ t ∈ s, Unique t.model t.rows

theorem uniqueKeys_empty (models : List Model) : (empty models).UniqueKeys := by
  intro t ht
  obtain ⟨m, -, rfl⟩ := List.mem_map.1 ht
  exact unique_nil m

theorem UniqueKeys.unique (h : s.UniqueKeys) (hs : s.Sound σ) (hm : m ∈ σ.models) :
    Unique m (s.rows m) := by
  obtain ⟨t, ht, htm, htable⟩ := hs.exists_table hm
  rw [Store.rows, htable]
  exact htm ▸ h t ht

theorem UniqueKeys.placed (h : s.UniqueKeys) (hs : s.Sound σ) (hm : m ∈ σ.models)
    (hplaced : Placed m s s' others row) (hothers : ∀ r ∈ others, r ∈ s.rows m)
    (hrow : ∀ key ∈ keysOf m, ∀ other ∈ others, clashes row other key = false) :
    s'.UniqueKeys := by
  rw [hplaced.store]
  exact hs.forall_setRows hm h (((h.unique hs hm).subset hothers).insertRow hrow)

theorem UniqueKeys.insert (h : s.UniqueKeys) (hs : s.Sound σ) (hm : m ∈ σ.models)
    {supply : Supply} {r : Record} (hinsert : s.insert supply m r = .ok (s', row)) :
    s'.UniqueKeys := by
  obtain ⟨-, -, hrules⟩ := of_insert hinsert
  exact h.placed hs hm (placed_of_insert hs hm hinsert) (fun _ hr => hr)
    (violation?_eq_none_iff.1 hrules).2.1

/-- Changing a row keeps the keys unique. -/
theorem UniqueKeys.update (h : s.UniqueKeys) (hs : s.Sound σ) (hm : m ∈ σ.models)
    (hrow : row ∈ s.rows m) {now : Calendar.Moment} {before after : Record}
    (hupdate : s.update now m row before after = .ok (s', next)) : s'.UniqueKeys := by
  refine h.placed hs hm (placed_of_update hs hm hrow hupdate)
    (fun _ hr => (List.mem_filter.1 hr).1) ?_
  rcases rules_of_update hupdate with rfl | hrules
  · exact (h.unique hs hm).clashes_without hrow
  · exact (violation?_eq_none_iff.1 hrules).2.1

theorem UniqueKeys.delete (h : s.UniqueKeys) (hs : s.Sound σ) (hm : m ∈ σ.models)
    (hdelete : s.delete m row = .ok s') : s'.UniqueKeys := by
  rw [setRows_of_delete hdelete]
  exact hs.forall_setRows hm h (unique_without (h.unique hs hm) row)

end TableApi.Store
