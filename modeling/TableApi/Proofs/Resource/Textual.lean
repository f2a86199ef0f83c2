import TableApi.Proofs.Resource.Commit
import TableApi.Proofs.Store.Cells

/-! Columns of texts. The store turns every number that is written to them into a text, so that in
whatever state a service is, no number stands in them. -/

namespace TableApi

/-- No number stands in the columns that keep numbers as texts. -/
def Row.IsTextual (m : Model) (row : Row) : Prop :=
  ∀ c ∈ m.columns, c.kind.affinity = .text → (row.cell c.name).numberToText = row.cell c.name

theorem Cell.numberToText_numberToText (cell : Cell) :
    cell.numberToText.numberToText = cell.numberToText := by
  cases cell <;> rfl

theorem Column.numberToText_kept {c : Column} (hc : c.kind.affinity = .text) (v : Value) :
    (c.kept v).numberToText = c.kept v := by
  rw [kept, hc]
  exact Cell.numberToText_numberToText _

theorem Column.numberToText_storeDefault {c : Column} (hc : c.kind.affinity = .text) :
    c.storeDefault.numberToText = c.storeDefault := by
  unfold storeDefault
  split
  · rw [hc]
    rfl
  · rfl

namespace Store

variable {s s' : Store} {m : Model} {row next : Row} {supply : Supply} {now : Calendar.Moment}
  {r before after : Record}

theorem isTextual_of_insert (hnames : (m.columns.map Column.name).Nodup)
    (h : s.insert supply m r = .ok (s', row)) : row.IsTextual m := by
  intro c hc haffinity
  rw [cell_of_insert hnames h hc]
  split
  · next hname =>
    have hkind := (Model.soleKey?_of_rowNumber? (rowNumber?_of_name hnames hc hname)).2
    rw [hkind] at haffinity
    cases haffinity
  · cases r.sent? supply c with
    | none => exact Column.numberToText_storeDefault haffinity
    | some v => exact Column.numberToText_kept haffinity v

theorem isTextual_of_update (hnames : (m.columns.map Column.name).Nodup) (hrow : row.IsTextual m)
    (h : s.update now m row before after = .ok (s', next)) : next.IsTextual m := by
  intro c hc haffinity
  rcases cell_of_update_cases hnames h hc with hkept | ⟨-, hwritten⟩ | ⟨-, htime⟩
  · rw [hkept]
    exact hrow c hc haffinity
  · rw [hwritten]
    exact Column.numberToText_kept haffinity _
  · rw [htime]
    exact Column.numberToText_kept haffinity _

end Store

/-- In every state that a service reaches, no number stands in a column of texts. -/
theorem Resource.holds_isTextual {σ : Schema} {state : State} (h : Reachable σ state) :
    state.store.Holds fun m row => (m.columns.map Column.name).Nodup → row.IsTextual m :=
  holds_of_reachable (fun hinsert hnames => Store.isTextual_of_insert hnames hinsert)
    (fun hrow hupdate hnames => Store.isTextual_of_update hnames (hrow hnames) hupdate) h

end TableApi
