import TableApi.Proofs.Except
import TableApi.Proofs.Statement.Check
import TableApi.Resource.Service

/-! The answer of a listing: the rows of its page as they are shown, and its total. There is one as
soon as the listing compiles and its page passes the check of the store. -/

namespace TableApi.Resource

variable {r : Resource} {requested : Option String}

/-- The rows of a page as a listing shows them. -/
def shownRows (r : Resource) (requested : Option String) (rows : List Row) : List Value :=
  rows.map fun row => .map (r.answerRow .index requested row)

/-- The answer that lists rows under their key. A total goes under its own key, which puts it behind
the rows, or in their place where the keys are one. -/
def listed (r : Resource) (requested : Option String) (rows : List Row) (total? : Option Nat) :
    Entries Value :=
  let shown : Entries Value := [(r.options.totals.rowsKey, .list (r.shownRows requested rows))]
  match total? with
  | some n => Entries.put r.options.totals.totalKey (.int n) shown
  | none => shown

/-- A listing is answered with the rows of its page and its total, as soon as it compiles and its
page passes the check of the store. -/
theorem index_eq_ok_iff {params answer : Entries Value} {store : Store} :
    r.index params requested store = .ok answer ↔
      ∃ l, Listing.compile store r.options params r.base = .ok l ∧ l.page.check store = .ok () ∧
        r.listed requested (l.page.rowsOf store) l.total? = answer := by
  have hlisted : ∀ rows (total? : Option Nat), (match total? with
      | some n => pure (Entries.put r.options.totals.totalKey (.int n)
        [(r.options.totals.rowsKey, .list (r.shownRows requested rows))])
      | none => pure [(r.options.totals.rowsKey, .list (r.shownRows requested rows))]) =
        (.ok (r.listed requested rows total?) : Except ServiceError (Entries Value)) := by
    intro rows total?
    cases total? <;> rfl
  constructor
  · intro h
    obtain ⟨l, hl, h⟩ := bind_eq_ok_iff.1 h
    obtain ⟨rows, hrun, h⟩ := bind_eq_ok_iff.1 h
    obtain ⟨hcheck, rfl⟩ := Select.run_eq_ok_iff.1 (mapError_eq_ok_iff.1 hrun)
    exact ⟨l, mapError_eq_ok_iff.1 hl, hcheck, Except.ok.inj ((hlisted _ _).symm.trans h)⟩
  · rintro ⟨l, hl, hcheck, rfl⟩
    have hrun := Select.run_eq_ok_iff.2 ⟨hcheck, rfl⟩
    exact bind_eq_ok_iff.2 ⟨l, mapError_eq_ok_iff.2 hl,
      bind_eq_ok_iff.2 ⟨_, mapError_eq_ok_iff.2 hrun, hlisted _ _⟩⟩

end TableApi.Resource
