import TableApi.Statement.Select

/-! When a statement runs. Nothing fails exactly when the statement has an output, every parameter
can be bound, every name has a meaning and no row meets a pattern that is too complex. The window
of a statement only adds its two parameters to this. -/

namespace TableApi.Select

open Number

/-- A parameter that its type prepares and that the store takes. -/
def Binds (p : ParameterType × Value) : Prop := ∃ c, p.1.prepare p.2 = .ok (.cell c)

def MeetsComplexPattern (s : Select) (store : Store) : Prop :=
  ∃ r ∈ s.source store, meetsComplexPattern s.model? r s.clauses = true

theorem binds_search (ts : List Term) (term : String) :
    ∀ p ∈ (Clause.search ts term).parameters, Binds p := by
  intro p hp
  obtain ⟨t, -, rfl⟩ := List.mem_map.1 hp
  exact ⟨.text _, rfl⟩

theorem binds_null (type : ParameterType) : Binds (type, .null) := by
  cases type <;> exact ⟨_, rfl⟩

theorem binds_moment (m : Calendar.Moment) : Binds (.moment, .moment m) := ⟨_, rfl⟩

theorem bindAll_cons_ok_iff {position : Nat} {p : Prepared} {rest : List Prepared} :
    (∃ cells, bindAll position (p :: rest) = .ok cells) ↔
      (∃ c, p = .cell c) ∧ ∃ cells, bindAll (position + 1) rest = .ok cells := by
  cases p with
  | cell c => cases h : bindAll (position + 1) rest <;> simp [bindAll, h, Except.map]
  | wide => simp [bindAll]
  | foreign kind => simp [bindAll]

/-- Parameters are bound as a whole exactly when each of them can be bound. -/
theorem bindAll_prepareAll_ok_iff (ps : List (ParameterType × Value)) (position : Nat) :
    (∃ prepared, prepareAll ps = .ok prepared ∧ ∃ cells, bindAll position prepared = .ok cells) ↔
      ∀ p ∈ ps, Binds p := by
  induction ps generalizing position with
  | nil => simp [prepareAll, bindAll]
  | cons p rest ih =>
    obtain ⟨type, v⟩ := p
    rw [List.forall_mem_cons, ← ih (position + 1)]
    cases hp : type.prepare v with
    | error e => simp [prepareAll, hp, Binds]
    | ok prepared =>
      cases hr : prepareAll rest with
      | error e => simp [prepareAll, hp, hr, Except.map]
      | ok more => simp [prepareAll, hp, hr, Except.map, bindAll_cons_ok_iff, Binds]

theorem check_eq_ok_iff (s : Select) (store : Store) :
    s.check store = .ok () ↔
      s.output ≠ .nothing ∧ (∀ p ∈ s.parameters, Binds p) ∧ s.unknownName? = none ∧
        ¬ s.MeetsComplexPattern store := by
  rw [← bindAll_prepareAll_ok_iff s.parameters 1]
  unfold check
  simp only [bind, Except.bind, pure, Except.pure, throw, throwThe, MonadExceptOf.throw]
  by_cases ho : s.output = .nothing
  · simp [ho]
  rw [if_neg (by cases hs : s.output <;> simp_all)]
  cases hp : prepareAll s.parameters with
  | error e => simp
  | ok prepared =>
    cases hu : s.unknownName? with
    | some name => simp
    | none =>
      cases hb : bindAll 1 prepared with
      | error e => simp [hb]
      | ok cells => simp [hb, ho, MeetsComplexPattern]

/-- All names are known exactly when every term has a meaning. -/
theorem unknownName?_eq_none_iff {s : Select} : s.unknownName? = none ↔
    ∀ t ∈ s.clauses.flatMap Clause.terms ++ s.order.map Ordered.term,
      (t.meaning? s.model?).isSome := by
  rw [unknownName?, List.findSome?_eq_none_iff]
  refine forall₂_congr fun t _ => ?_
  cases t with
  | column c => simp [Term.meaning?]
  | bare name => cases (Term.bare name).meaning? s.model? <;> simp

theorem meetsComplexPattern_eq_false {clauses : List Clause}
    (h : ∀ c ∈ clauses, c.isTooComplex = false) (model? : Option Model) (r : Row) :
    meetsComplexPattern model? r clauses = false := by
  induction clauses with
  | nil => rfl
  | cons c rest ih =>
    obtain ⟨hc, hrest⟩ := List.forall_mem_cons.1 h
    rw [meetsComplexPattern, hc, ih hrest, Bool.and_false, Bool.or_false]

/-- A further clause is met by the rows that satisfy those before it. -/
theorem meetsComplexPattern_append_singleton (model? : Option Model) (r : Row) (cs : List Clause)
    (c : Clause) : meetsComplexPattern model? r (cs ++ [c]) =
      (meetsComplexPattern model? r cs || (cs.all (Clause.holds model? r) && c.isTooComplex)) := by
  induction cs with
  | nil => simp [meetsComplexPattern]
  | cons d rest ih =>
    rw [List.cons_append, meetsComplexPattern, ih, meetsComplexPattern, List.all_cons,
      Bool.and_or_distrib_left, Bool.or_assoc, Bool.and_assoc]

/-- A statement runs on every store when its parameters are bound, it looks at columns only and its
patterns are not too complex. -/
theorem check_of_columns {s : Select} (houtput : s.output ≠ .nothing)
    (hbinds : ∀ p ∈ s.parameters, Binds p)
    (hterms : ∀ t ∈ s.clauses.flatMap Clause.terms ++ s.order.map Ordered.term,
      ∃ c, t = .column c)
    (hsimple : ∀ c ∈ s.clauses, c.isTooComplex = false) (store : Store) :
    s.check store = .ok () := by
  rw [check_eq_ok_iff]
  refine ⟨houtput, hbinds, ?_, ?_⟩
  · rw [unknownName?_eq_none_iff]
    intro t ht
    obtain ⟨c, rfl⟩ := hterms t ht
    rfl
  · rintro ⟨r, -, hmet⟩
    rw [meetsComplexPattern_eq_false hsimple] at hmet
    cases hmet

/-! ### Running -/

theorem run_eq_ok_iff {s : Select} {store : Store} {rows : List Row} :
    s.run store = .ok rows ↔ s.check store = .ok () ∧ s.rowsOf store = rows := by
  unfold run
  cases s.check store <;> simp [bind, Except.bind, pure, Except.pure]

theorem run_eq_error_iff {s : Select} {store : Store} {e : StoreError} :
    s.run store = .error e ↔ s.check store = .error e := by
  unfold run
  cases s.check store <;> simp [bind, Except.bind, pure, Except.pure]

theorem answers_eq_ok_iff {s : Select} {store : Store} {answers : List (Entries Value)} :
    s.answers store = .ok answers ↔ s.check store = .ok () ∧ s.answersOf store = answers := by
  unfold Select.answers
  cases s.check store <;> simp [bind, Except.bind, pure, Except.pure]

theorem countAnswers_eq_ok_iff {s : Select} {store : Store} {n : Nat} :
    s.countAnswers store = .ok n ↔ s.check store = .ok () ∧ (s.answersOf store).length = n := by
  unfold countAnswers Select.answers
  cases s.check store <;> simp [bind, Except.bind, pure, Except.pure, Except.map]

theorem countAnswers_eq_error_iff {s : Select} {store : Store} {e : StoreError} :
    s.countAnswers store = .error e ↔ s.check store = .error e := by
  unfold countAnswers Select.answers
  cases s.check store <;> simp [bind, Except.bind, pure, Except.pure, Except.map]

end TableApi.Select
