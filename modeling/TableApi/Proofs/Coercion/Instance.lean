import TableApi.Proofs.Coercion.Nested

/-! Values in the kind of a column. A coerced value that is an instance of the values of a column
comes from a value that holds no further values. A moment is an instance in a column of dates as
well, but none is ever left there: its text reads back as a moment, of which the date is taken. -/

namespace TableApi

namespace Coercion

theorem spellOffset_eq_self {s : String} (h : Calendar.MadeOf (· != 'Z') s) : spellOffset s = s := by
  have hchars : ∀ cs : List Char, (∀ c ∈ cs, (c != 'Z') = true) →
      (cs.flatMap fun c => if c = 'Z' then "+00:00".toList else [c]) = cs := by
    intro cs
    induction cs with
    | nil => exact fun _ => rfl
    | cons c rest ih =>
      intro hcs
      obtain ⟨hc, hrest⟩ := List.forall_mem_cons.1 hcs
      rw [List.flatMap_cons, if_neg (by simpa using hc), ih hrest, List.singleton_append]
  rw [spellOffset, hchars s.toList h, String.ofList_toList]

/-- A moment is read back from its text, whatever separates date and time. -/
theorem readMomentText?_textWith {separator : String} {b : Nat}
    (hseparator : Calendar.bytesOf separator = [b]) (hb : b < 0x80)
    (hletter : Calendar.MadeOf (· != 'Z') separator) (m : Calendar.Moment) :
    readMomentText? (m.textWith separator) = some m := by
  rw [readMomentText?, spellOffset_eq_self (m.madeOf_textWith (by decide) hletter)]
  exact Calendar.readMoment?_textWith hseparator hb m

theorem toDate?_moment (m : Calendar.Moment) : toDate? (.moment m) = some (.date m.date) := by
  have htime : hasTimePart (m.textWith " ") = true := by
    simp [hasTimePart, Calendar.Moment.textWith]
  have hread : readMomentText? (m.textWith " ") = some m :=
    readMomentText?_textWith (b := 32) (by decide) (by decide)
      (Calendar.madeOf_singleton (c := ' ') (by decide)) m
  simp only [toDate?, Value.plainText, m.strip_textWith, htime, if_true, hread, Option.map_some]

/-! ### Instances -/

/-- Whether a value is an instance of the values of a column: what a column with typed values
accepts, and a text in a column of texts. Columns of JSON and raw columns have no values of their
own. -/
def isInstance (kind : ColumnKind) (v : Value) : Bool :=
  match kind, v with
  | .text, .text _ => true
  | .text, _ | .json, _ | .raw, _ => false
  | kind, v => accepts kind v

variable {kind : ColumnKind} {v x : Value}

theorem isInstance_of_isNested (h : v.isNested = true) (kind : ColumnKind) :
    isInstance kind v = false := by
  refine Value.nested_cases h ?_ ?_ ?_ <;> intro _ <;> cases kind <;> rfl

/-- What is an instance after coercion held no further values before it. -/
theorem isNested_of_isInstance (h : coerce kind v = .ok x) (hx : isInstance kind x = true) :
    v.isNested = false := by
  cases hnested : v.isNested with
  | false => rfl
  | true =>
    rw [coerce_nested hnested] at h
    rw [← Except.ok.inj h, isInstance_of_isNested hnested] at hx
    cases hx

/-- An instance in a column of dates is a date once it is coerced. -/
theorem exists_date_of_coerce (h : coerce .date v = .ok x) (hx : isInstance .date x = true) :
    ∃ d, x = .date d := by
  cases hnull : v.isNull with
  | true =>
    rw [Value.isNull_iff.1 hnull] at h
    rw [← Except.ok.inj h] at hx
    cases hx
  | false =>
    rw [coerce_of_ne_null .date hnull] at h
    have hconverted : (toDate? v).getD v = x := Except.ok.inj h
    cases hdate : toDate? v with
    | some y =>
      rw [hdate, Option.getD_some] at hconverted
      exact hconverted ▸ toDate?_eq_some hdate
    | none =>
      rw [hdate, Option.getD_none] at hconverted
      subst hconverted
      cases v with
      | date d => exact ⟨d, rfl⟩
      | moment m =>
        rw [toDate?_moment] at hdate
        cases hdate
      | _ => cases hx

end Coercion

end TableApi
