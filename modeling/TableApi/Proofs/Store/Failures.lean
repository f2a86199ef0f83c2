import TableApi.Proofs.Statement.Integers
import TableApi.Proofs.Store.Cells

/-! When writes fail for another reason than the rules of the tables. The store has to take every
value that is sent, and a new row without a key of its own needs a number that is left; everything
behind that is for the rules to judge. -/

namespace TableApi.Store

open Select (Binds)

variable {s : Store} {m : Model} {c : Column} {now : Calendar.Moment} {row : Row}
  {before after r : Record} {supply : Supply} {e : StoreError}

/-- A write that is done, or that breaks a rule of the tables. -/
def IsJudged {α : Type} (x : Except StoreError α) : Prop :=
  ∀ e, x = .error e → ∃ v, e = .violation v

section Judged

variable {α β : Type} {x : Except StoreError α} {f : α → Except StoreError β}

theorem isJudged_ok (a : α) : IsJudged (.ok a : Except StoreError α) := fun _ h => nomatch h

theorem isJudged_violation (v : Violation) :
    IsJudged (.error (.violation v) : Except StoreError α) :=
  fun _ h => ⟨v, (Except.error.inj h).symm⟩

theorem isJudged_bind_iff (hx : ∀ v, x ≠ .error (.violation v)) :
    IsJudged (x >>= f) ↔ ∃ a, x = .ok a ∧ IsJudged (f a) := by
  cases x with
  | ok a => simp [bind, Except.bind]
  | error e =>
    refine ⟨fun h => ?_, fun ⟨_, h, _⟩ => nomatch h⟩
    obtain ⟨v, rfl⟩ := h e rfl
    exact absurd rfl (hx v)

theorem isJudged_bind_iff_left (hf : ∀ a, IsJudged (f a)) : IsJudged (x >>= f) ↔ IsJudged x := by
  cases x with
  | ok a => exact iff_of_true (hf a) (isJudged_ok a)
  | error e =>
    exact forall_congr' fun e' => by simp [bind, Except.bind]

end Judged

/-! ### Binding -/

def parametersOf (sent : List (Column × Value)) : List (ParameterType × Value) :=
  sent.map fun p => (p.1.kind.parameterType, p.2)

variable {sent : List (Column × Value)} {more : List (ParameterType × Value)}

theorem exists_bindColumns_iff : (∃ cells, bindColumns sent more = .ok cells) ↔
    ∀ p ∈ parametersOf sent ++ more, Binds p := by
  rw [← Select.bindAll_prepareAll_ok_iff _ 1]
  unfold bindColumns
  simp only [bind_eq_ok_iff]
  constructor
  · rintro ⟨cells, prepared, hprepared, h⟩
    split at h
    · cases h
    · next bound hbound => exact ⟨prepared, hprepared, bound, hbound⟩
  · rintro ⟨prepared, hprepared, bound, hbound⟩
    exact ⟨_, prepared, hprepared, by rw [hbound]; rfl⟩

theorem of_bindColumns_eq_error (h : bindColumns sent more = .error e) :
    (∃ p ∈ parametersOf sent ++ more, ∃ failure, p.1.prepare p.2 = .error failure ∧
      e = .prepare failure) ∨ ∃ failure, e = .bind failure := by
  rcases bind_eq_error_iff.1 h with hprepare | ⟨prepared, -, h⟩
  · exact .inl (Select.of_prepareAll_eq_error hprepare)
  · split at h
    · next failure _ => exact .inr ⟨failure, (Except.error.inj h).symm⟩
    · cases h

theorem eq_bind_of_prepared
    (hprepared : ∀ p ∈ parametersOf sent ++ more, ∃ q, p.1.prepare p.2 = .ok q)
    (h : bindColumns sent more = .error e) : ∃ failure, e = .bind failure := by
  refine (of_bindColumns_eq_error h).resolve_left ?_
  rintro ⟨p, hp, failure, hfailure, -⟩
  obtain ⟨q, hq⟩ := hprepared p hp
  rw [hq] at hfailure
  cases hfailure

theorem bindColumns_ne_violation (v : Violation) :
    bindColumns sent more ≠ .error (.violation v) := by
  intro h
  rcases of_bindColumns_eq_error h with ⟨p, -, failure, -, hfailure⟩ | ⟨failure, hfailure⟩ <;>
    cases hfailure

/-! ### New rows -/

theorem forall_parametersOf_sent (p : ParameterType × Value → Prop) :
    (∀ q ∈ parametersOf (m.columns.filterMap fun c => (r.sent? supply c).map (c, ·)) ++ [], p q) ↔
      ∀ c ∈ m.columns, ∀ v, r.sent? supply c = some v → p (c.kind.parameterType, v) := by
  rw [List.append_nil, parametersOf, List.forall_mem_map]
  simp only [List.mem_filterMap, Option.map_eq_some_iff]
  constructor
  · exact fun h c hc v hv => h (c, v) ⟨c, hc, v, hv, rfl⟩
  · rintro h q ⟨c, hc, v, hv, rfl⟩
    exact h c hc v hv

/-- A new row is judged when everything that is sent for it is bound and it gets a number. -/
theorem isJudged_insert_iff : IsJudged (s.insert supply m r) ↔
    (∀ c ∈ m.columns, ∀ v, r.sent? supply c = some v → Binds (c.kind.parameterType, v)) ∧
      IsJudged (s.newNumber m (sentCells supply m r)) := by
  unfold insert
  rw [isJudged_bind_iff bindColumns_ne_violation, ← forall_parametersOf_sent Binds,
    ← exists_bindColumns_iff, ← exists_and_right]
  refine exists_congr fun cells => and_congr_right fun hcells => ?_
  rw [written_of_bindColumns hcells, ← sentCells]
  refine isJudged_bind_iff_left fun number => ?_
  simp only
  split
  · exact isJudged_violation _
  · exact isJudged_ok _

/-- A row that is sent no key needs a number that is left. -/
theorem isJudged_newNumber_iff {written : Entries Cell} (hc : m.rowNumber? = some c)
    (hnone : written.get? c.name = none) :
    IsJudged (s.newNumber m written) ↔ Number.fitsStore (nextNumber (s.rows m)) = true := by
  simp only [newNumber, hc, Option.bind_some, hnone]
  split
  · next hfits => exact iff_of_true (isJudged_ok _) hfits
  · next hfits =>
    refine iff_of_false (fun h => ?_) hfits
    obtain ⟨v, hv⟩ := h _ rfl
    cases hv

theorem of_newNumber_eq_error {written : Entries Cell} (h : s.newNumber m written = .error e) :
    e = .full ∨ ∃ v, e = .violation v := by
  have hnext {n : Int} (hn : (if Number.fitsStore n = true then Except.ok n
      else Except.error StoreError.full) = .error e) : e = .full := by
    split at hn
    · cases hn
    · exact (Except.error.inj hn).symm
  unfold newNumber at h
  split at h
  · cases h
  · exact .inl (hnext h)
  · exact .inl (hnext h)
  · exact .inr ⟨_, (Except.error.inj h).symm⟩

/-- A new row all of whose parameters are prepared fails at binding them, for want of a number, or
by the rules of the tables. -/
theorem of_insert_eq_error (hprepared : ∀ c ∈ m.columns, ∀ v, r.sent? supply c = some v →
    ∃ q, c.kind.parameterType.prepare v = .ok q) (h : s.insert supply m r = .error e) :
    (∃ failure, e = .bind failure) ∨ e = .full ∨ ∃ v, e = .violation v := by
  rcases bind_eq_error_iff.1 h with hbind | ⟨cells, -, h⟩
  · exact .inl (eq_bind_of_prepared ((forall_parametersOf_sent _).2 hprepared) hbind)
  · rcases bind_eq_error_iff.1 h with hnumber | ⟨number, -, h⟩
    · exact .inr (of_newNumber_eq_error hnumber)
    · simp only at h
      split at h
      · exact .inr (.inr ⟨_, (Except.error.inj h).symm⟩)
      · cases h

/-! ### Changed rows -/

/-- The parameters of a change: what it sends, and the key of the row. -/
def changeParameters (now : Calendar.Moment) (m : Model) (before after : Record) :
    List (ParameterType × Value) :=
  parametersOf (changes now m before after) ++
    m.primaryKey.map fun c => (c.kind.parameterType, before.value c.field)

/-- Where it is located, a change is judged behind the binding of its parameters. -/
theorem isJudged_replacing (s : Store) (m : Model) (row changed : Row) : IsJudged (do
    let next ← renumbered m changed
    match s.violation? m (s.otherRows m row) next with
    | some v => throw (.violation v)
    | none =>
      if s.isReferenced m row && !s.isReferenced m next then throw (.violation .reference)
      else pure (s.setRows m (insertRow next (s.otherRows m row)), next)) := by
  refine (isJudged_bind_iff_left fun next => ?_).2 ?_
  · split
    · exact isJudged_violation _
    · split
      · exact isJudged_violation _
      · exact isJudged_ok _
  · unfold renumbered
    split
    · exact isJudged_ok _
    · split
      · exact isJudged_ok _
      · exact isJudged_violation _

/-- A change is judged when it sends nothing, or all that it sends is bound and its key names the
row. -/
theorem isJudged_update_iff : IsJudged (s.update now m row before after) ↔
    changes now m before after = [] ∨
      (∀ p ∈ changeParameters now m before after, Binds p) ∧ row.isNamedBy m before = true := by
  unfold update
  simp only [List.isEmpty_iff]
  split
  · next hnothing => exact iff_of_true (isJudged_ok _) (.inl hnothing)
  · next hsome =>
    rw [isJudged_bind_iff bindColumns_ne_violation, or_iff_right hsome, changeParameters,
      ← exists_bindColumns_iff, ← exists_and_right]
    refine exists_congr fun cells => and_congr_right fun _ => ?_
    refine (isJudged_bind_iff_left fun _ => isJudged_replacing s m row _).trans ?_
    rw [← locate_eq_ok_iff]
    unfold locate
    split
    · exact iff_of_true (isJudged_ok _) rfl
    · refine iff_of_false (fun h => ?_) nofun
      obtain ⟨v, hv⟩ := h _ rfl
      cases hv

/-- A change that locates its row and all of whose parameters are prepared fails at binding them, or
by the rules of the tables. -/
theorem of_update_eq_error
    (hprepared : ∀ p ∈ changeParameters now m before after, ∃ q, p.1.prepare p.2 = .ok q)
    (hnamed : row.isNamedBy m before = true) (h : s.update now m row before after = .error e) :
    (∃ failure, e = .bind failure) ∨ ∃ v, e = .violation v := by
  unfold update at h
  simp only [List.isEmpty_iff, locate_eq_ok_iff.2 hnamed] at h
  split at h
  · cases h
  · rcases bind_eq_error_iff.1 h with hbind | ⟨cells, -, h⟩
    · exact .inl (eq_bind_of_prepared hprepared hbind)
    · exact .inr (isJudged_replacing s m row _ e h)

end TableApi.Store
