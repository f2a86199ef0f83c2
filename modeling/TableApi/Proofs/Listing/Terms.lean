import TableApi.Proofs.Listing.Refinement
import TableApi.Proofs.Statement.Mask

/-! The terms that refining brings into a statement. Every one of them comes from a field that the
options list: what the parameters say chooses among these fields and adds none. So what holds of the
terms of these fields holds of all terms of a refined statement. -/

namespace TableApi

namespace Select

def terms (s : Select) : List Term := s.clauses.flatMap Clause.terms ++ s.order.map Ordered.term

@[simp] theorem terms_all (m : Model) : (all m).terms = [] := rfl

theorem mem_terms_iff {s : Select} {t : Term} :
    t ∈ s.terms ↔ (∃ c ∈ s.clauses, t ∈ c.terms) ∨ ∃ o ∈ s.order, o.term = t := by
  rw [terms, List.mem_append, List.mem_flatMap, List.mem_map]

theorem within_iff {names : List String} {s : Select} :
    s.Within names ↔ ∀ t ∈ s.terms, t.Within names := by
  constructor
  · intro h t ht
    rcases mem_terms_iff.1 ht with ⟨c, hc, hmem⟩ | ⟨o, ho, rfl⟩
    · exact h.clauses c hc t hmem
    · exact h.order o ho
  · intro h
    exact ⟨fun c hc t ht => h t (mem_terms_iff.2 (Or.inl ⟨c, hc, ht⟩)),
      fun o ho => h o.term (mem_terms_iff.2 (Or.inr ⟨o, ho, rfl⟩))⟩

end Select

theorem Term.exists_ofField_eq_column {m : Model} {field : String} (h : field ∈ m.fields) :
    ∃ c ∈ m.columns, Term.ofField (some m) field = .column c := by
  obtain ⟨c, hc⟩ := Model.exists_column?_of_mem h
  exact ⟨c, List.mem_of_find?_eq_some hc, by simp only [ofField, Option.bind_some, hc]⟩

namespace Listing

variable {names : List String} {m : Model}

def Covered (names : List String) (m : Model) (field : String) : Prop :=
  ∃ c, m.column? field = some c ∧ c.name ∈ names

theorem within_ofField {field : String} (h : Covered names m field) :
    (Term.ofField (some m) field).Within names := by
  obtain ⟨c, hc, hname⟩ := h
  exact ⟨c, by simp [Term.ofField, hc], hname⟩

/-- The clause of a condition looks at the field of the condition and at no other. -/
theorem terms_of_clauseOf {t : Term} {op : Operator} {operand : Operand} {clause : Clause}
    (h : clauseOf t op operand = .ok clause) : clause.terms = [t] := by
  have hequality : ∀ v, (equality t v).terms = [t] := fun v => by cases v <;> rfl
  have hinequality : ∀ v, (inequality t v).terms = [t] := fun v => by cases v <;> rfl
  have hordering : ∀ c v, ordering t c v = .ok clause → clause.terms = [t] := by
    intro c v hv
    unfold ordering at hv
    split at hv
    · cases hv
    · cases hv
    · cases hv
      rfl
  unfold clauseOf at h
  split at h
  · rw [← Except.ok.inj h, hequality]
  · rw [← Except.ok.inj h, hinequality]
  all_goals first
    | exact hordering _ _ h
    | (rw [← Except.ok.inj h]; rfl)
    | cases h

theorem terms_of_clauseOfCondition {model? : Option Model} {c : Condition} {clause : Clause}
    (h : clauseOfCondition model? c = .ok clause) :
    clause.terms = [Term.ofField model? c.field] := by
  obtain ⟨operand, -, hclause⟩ := bind_eq_ok_iff.1 h
  exact terms_of_clauseOf hclause

variable {P : Term → Prop} {o : Options} {params : Entries Value}

/-- The search looks at the fields that it lists. -/
theorem forall_terms_of_mem_searchClauses
    (hsearch : ∀ field ∈ o.searching.fields, P (Term.ofField (some m) field)) {c : Clause}
    (hc : c ∈ searchClauses o params (some m)) : ∀ t ∈ c.terms, P t := by
  intro t ht
  unfold searchClauses at hc
  split at hc
  · split at hc
    · cases hc
    · split at hc
      · cases hc
      · rw [List.mem_singleton.1 hc] at ht
        have hmem : t ∈ (o.searching.fields.map (Term.ofField (some m))).filter isSearchable := ht
        obtain ⟨field, hfield, rfl⟩ := List.mem_map.1 (List.mem_filter.1 hmem).1
        exact hsearch field hfield
  · cases hc

/-- A sort term is one of the listed fields or, when there is no list, a column of the model. -/
theorem of_mem_orderTerms {t : Ordered} (ht : t ∈ orderTerms o params (some m)) :
    o.sorting.enabled = true ∧
      ((∃ field ∈ o.sorting.allowed, t.term = Term.ofField (some m) field) ∨
        o.sorting.allowed = [] ∧ ∃ c ∈ m.columns, t.term = .column c) := by
  unfold orderTerms at ht
  split at ht
  · next hon =>
    refine ⟨hon, ?_⟩
    unfold sortTerms at ht
    split at ht
    · obtain ⟨asked, -, hasked⟩ := List.mem_filterMap.1 ht
      obtain ⟨term, hterm, rfl⟩ := Option.map_eq_some_iff.1 hasked
      unfold sortTerm? at hterm
      split at hterm
      · next hempty =>
        obtain ⟨c, hc, rfl⟩ := Option.map_eq_some_iff.1 hterm
        exact Or.inr ⟨List.isEmpty_iff.1 hempty, c, List.mem_of_find?_eq_some hc, rfl⟩
      · split at hterm
        · next hfield =>
          cases hterm
          exact Or.inl ⟨asked.field, List.contains_iff_mem.1 hfield, rfl⟩
        · cases hterm
    · cases ht
  · cases ht

/-- What holds of the base statement and of the fields that the options list holds of every term of
a refined statement. Without a list of sort fields it must hold of all columns. -/
theorem forall_terms_of_refine {base s : Select} (hbase : base.isWindowed = false)
    (hmodel : base.model? = some m) (hold : ∀ t ∈ base.terms, P t)
    (hfilter : ∀ field ∈ o.filtering.fields, P (Term.ofField (some m) field))
    (hsearch : ∀ field ∈ o.searching.fields, P (Term.ofField (some m) field))
    (hsort : ∀ field ∈ o.sorting.allowed, P (Term.ofField (some m) field))
    (hsorting : o.sorting.enabled = true → o.sorting.allowed = [] → ∀ c ∈ m.columns, P (.column c))
    (hs : refine o params base = .ok s) : ∀ t ∈ s.terms, P t := by
  obtain ⟨clauses, hclauses, rfl⟩ := (refine_eq_ok_iff hbase).1 hs
  rw [hmodel] at hclauses ⊢
  intro t ht
  rcases Select.mem_terms_iff.1 ht with ⟨c, hc, ht⟩ | ⟨ordered, hordered, rfl⟩
  · rcases List.mem_append.1 hc with hfirst | hnew
    · exact hold t (Select.mem_terms_iff.2 (Or.inl ⟨c, hfirst, ht⟩))
    rcases List.mem_append.1 hnew with hcondition | hsearched
    · obtain ⟨condition, hmem, hclause⟩ := exists_of_mem_mapM hclauses hcondition
      rw [terms_of_clauseOfCondition hclause, List.mem_singleton] at ht
      rw [ht]
      exact hfilter _ (of_mem_conditions hmem).1
    · exact forall_terms_of_mem_searchClauses hsearch hsearched t ht
  · rcases List.mem_append.1 hordered with hfirst | hnew
    · exact hold _ (Select.mem_terms_iff.2 (Or.inr ⟨ordered, hfirst, rfl⟩))
    · obtain ⟨hon, ⟨field, hfield, hterm⟩ | ⟨hempty, c, hc, hterm⟩⟩ := of_mem_orderTerms hnew
      · rw [hterm]
        exact hsort field hfield
      · rw [hterm]
        exact hsorting hon hempty c hc

/-- A refined statement looks only at columns of the fields that the options list. -/
theorem within_of_refine {base s : Select} (hbase : base.isWindowed = false)
    (hmodel : base.model? = some m) (hwithin : base.Within names)
    (hfilter : ∀ field ∈ o.filtering.fields, Covered names m field)
    (hsearch : ∀ field ∈ o.searching.fields, Covered names m field)
    (hsort : ∀ field ∈ o.sorting.allowed, Covered names m field)
    (hsorting : o.sorting.enabled = false ∨ o.sorting.allowed ≠ [])
    (hs : refine o params base = .ok s) : s.Within names := by
  refine Select.within_iff.2 (forall_terms_of_refine hbase hmodel (Select.within_iff.1 hwithin)
    (fun field h => within_ofField (hfilter field h))
    (fun field h => within_ofField (hsearch field h))
    (fun field h => within_ofField (hsort field h)) ?_ hs)
  intro hon hempty
  rcases hsorting with hoff | hne
  · rw [hoff] at hon
    cases hon
  · exact absurd hempty hne

theorem terms_paged (o : Options.Pagination) (params : Entries Value) (s : Select) :
    (paged o params s).terms = s.terms := by
  unfold paged
  split <;> rfl

end Listing

end TableApi
