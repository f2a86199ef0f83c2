import TableApi.Proofs.Resource.Admissible
import TableApi.Proofs.Resource.Frame

/-! What requests that write come to, as equations. Where no hook interferes, a creation and a
change come to the one write that the store is asked for; whatever fails before that is the result
as it is. So a request is answered, or refused as one of the client, when its write is judged by the
rules. -/

namespace TableApi

/-- A result that is an answer or the refusal of a request, with its status. -/
def IsAnswered {α : Type} (x : Except ServiceError α) : Prop :=
  ∀ e, x = .error e → ∃ refusal, e = .refused refusal ∧ refusal.status ∈ [400, 404, 422]

theorem Refusal.status_mem (refusal : Refusal) : refusal.status ∈ [400, 404, 422] := by
  cases refusal <;> simp [status]

section Answered

variable {α : Type}

theorem isAnswered_ok (a : α) : IsAnswered (.ok a) := fun _ h => nomatch h

theorem isAnswered_refused (refusal : Refusal) :
    IsAnswered (.error (.refused refusal) : Except ServiceError α) :=
  fun _ h => ⟨refusal, (Except.error.inj h).symm, refusal.status_mem⟩

theorem not_isAnswered_of_ne {e : ServiceError} (h : ∀ refusal, e ≠ .refused refusal) :
    ¬ IsAnswered (.error e : Except ServiceError α) := by
  intro hanswered
  obtain ⟨refusal, hrefusal, -⟩ := hanswered e rfl
  exact h refusal hrefusal

theorem not_isAnswered_store (e : StoreError) :
    ¬ IsAnswered (.error (.store e) : Except ServiceError α) :=
  not_isAnswered_of_ne fun _ => ServiceError.noConfusion

instance (x : Except ServiceError α) : Decidable (IsAnswered x) :=
  match x with
  | .ok a => .isTrue (isAnswered_ok a)
  | .error (.refused refusal) => .isTrue (isAnswered_refused refusal)
  | .error (.coercion _) | .error (.build _) | .error (.store _) | .error (.hook _)
  | .error (.lost _) =>
    .isFalse (not_isAnswered_of_ne fun _ => ServiceError.noConfusion)

end Answered

namespace Resource

variable {σ : Schema} {r : Resource} {payload address : Value} {state : State} {found : Row}
  {clean record : Record} {now : Calendar.Moment}

/-! ### Failures before the write -/

theorem within_eq_error {α : Type} {t : Transaction α} {e : ServiceError}
    (h : t.Ensures (Session.start state) (fun _ _ => False) fun e' s =>
      e' = e ∧ s = Session.start state) : Session.within state t = ⟨.error e, state, []⟩ := by
  unfold Transaction.Ensures at h
  unfold Session.within
  cases hrun : (t.run.run (Session.start state) : Except ServiceError α × Session) with
  | mk result s =>
    rw [hrun] at h
    cases result with
    | ok a => exact h.elim
    | error e' =>
      obtain ⟨rfl, rfl⟩ := h
      rfl

theorem create_of_sanitize_eq_error {e : PayloadError} (h : r.sanitize payload false = .error e)
    (now : Calendar.Moment) (state : State) :
    r.create now payload state = ⟨.error (.ofPayload e), state, []⟩ := by
  refine within_eq_error (.bind (.ofExcept ?_ ?_)) <;> rw [h]
  · exact fun clean hclean => nomatch hclean
  · exact fun e' he' => ⟨(Except.error.inj he').symm, rfl⟩

theorem within_find_eq_error {α : Type} {e : ServiceError}
    (h : r.find state.store address = .error e) (next : Row → Transaction α) :
    Session.within state (do next (← MonadExcept.ofExcept
      (r.find (← MonadState.get).working address))) = ⟨.error e, state, []⟩ := by
  refine within_eq_error (.bind (.get (.bind (.ofExcept ?_ ?_))))
  · exact fun row hrow => nomatch h.symm.trans hrow
  · exact fun e' he' => ⟨Except.error.inj (he'.symm.trans h), rfl⟩

theorem update_of_find_eq_error {e : ServiceError} (h : r.find state.store address = .error e)
    (now : Calendar.Moment) (payload : Value) :
    r.update now address payload state = ⟨.error e, state, []⟩ :=
  within_find_eq_error h _

theorem destroy_of_find_eq_error {e : ServiceError} (h : r.find state.store address = .error e) :
    r.destroy address state = ⟨.error e, state, []⟩ :=
  within_find_eq_error h _

theorem update_of_sanitize_eq_error {e : PayloadError}
    (hfind : r.find state.store address = .ok found) (h : r.sanitize payload true = .error e)
    (now : Calendar.Moment) :
    r.update now address payload state = ⟨.error (.ofPayload e), state, []⟩ := by
  refine within_eq_error (.bind (.get (.bind (.ofExcept ?_ ?_))))
  · intro row _
    refine .bind (.ofExcept ?_ ?_) <;> rw [h]
    · exact fun clean hclean => nomatch hclean
    · exact fun e' he' => ⟨(Except.error.inj he').symm, rfl⟩
  · exact fun e' he' => nomatch hfind.symm.trans he'

/-! ### The write -/

/-- What a request comes to behind its write. -/
def ofWrite (r : Resource) : Except StoreError (Store × Row) → Except ServiceError (Entries Value)
  | .ok (_, row) => .ok (r.answerRow .write none row)
  | .error (.violation _) => .error (.refused .violated)
  | .error e => .error (.store e)

theorem isAnswered_ofWrite_iff {x : Except StoreError (Store × Row)} :
    IsAnswered (r.ofWrite x) ↔ Store.IsJudged x := by
  cases x with
  | ok written => exact iff_of_true (isAnswered_ok _) (Store.isJudged_ok written)
  | error e =>
    cases e with
    | violation v => exact iff_of_true (isAnswered_refused _) (Store.isJudged_violation v)
    | _ =>
      refine iff_of_false (not_isAnswered_store _) fun h => ?_
      obtain ⟨v, hv⟩ := h _ rfl
      cases hv

/-- A write that fails is refused, or its failure is that of the store, which is none of the
rules. -/
theorem of_ofWrite_eq_error {x : Except StoreError (Store × Row)} {e : ServiceError}
    (h : r.ofWrite x = .error e) : (∃ refusal, e = .refused refusal) ∨
      ∃ failure, x = .error failure ∧ (∀ v, failure ≠ .violation v) ∧ e = .store failure := by
  cases x with
  | ok written => cases h
  | error failure =>
    cases failure with
    | violation v =>
      cases h
      exact .inl ⟨_, rfl⟩
    | _ =>
      cases h
      exact .inr ⟨_, rfl, fun _ => StoreError.noConfusion, rfl⟩

/-- Where the hook leaves it alone, a row is settled as it was flushed when its record names it. -/
theorem settle_ensures_eq {point : HookPoint} (hhook : r.LeavesAlone point now) {row : Row}
    {known : Record} {s : Session} (hs : s.working.Sound σ) (hm : r.model ∈ σ.models)
    (hrow : row ∈ s.working.rows r.model) (hnamed : row.isNamedBy r.model known = true) :
    (r.settle point now row known).Ensures s (fun settled _ => settled = row)
      fun _ _ => False := by
  obtain ⟨answer, hrun⟩ := hhook s.working known
  refine .bind (.callHook ?_ ?_)
  · rintro ⟨answer', changed⟩ hanswer
    rw [hrun] at hanswer
    cases hanswer
    refine .bind (.flush ?_ ?_)
    · intro store next hupdate
      rw [Store.update_self] at hupdate
      cases hupdate
      refine .bind (.commit (refresh_ensures hs hm hrow (fun _ => rfl) fun hlost => ?_))
      rw [Store.isNamedBy_stamped_self, hnamed] at hlost
      cases hlost
    · exact fun e he => nomatch (Store.update_self _ _ _ _ _).symm.trans he
  · exact fun e he => nomatch hrun.symm.trans he

/-- What fails for the store behind the start of a write is what the request comes to. -/
theorem ofWrite_guarded {x : Except StoreError (Store × Row)} {t : Transaction Row} {s : Session}
    (h : t.Ensures s (fun row _ => ∃ store, x = .ok (store, row))
      fun e _ => ∃ e', x = .error e' ∧ e = .store e') :
    (Transaction.guarded .violated t).Ensures s
      (fun row _ => r.ofWrite x = .ok (r.answerRow .write none row))
      fun e _ => r.ofWrite x = .error e := by
  refine .guarded_of (fun e _ => ∃ e', x = .error e' ∧ e = .store e')
    (h.mono ?_ fun _ _ => id) ?_ ?_
  · rintro row _ ⟨store, rfl⟩
    rfl
  · rintro v _ ⟨e', rfl, he⟩
    cases he
    rfl
  · rintro _ _ hother ⟨e', rfl, rfl⟩
    cases e' with
    | violation v => exact absurd rfl (hother v)
    | _ => rfl

/-- A creation comes to the row that the store is asked to add. -/
theorem create_result_eq (hs : state.store.Sound σ) (hm : r.model ∈ σ.models)
    (hclean : r.sanitize payload false = .ok clean)
    (hbefore : r.runHook .beforeCreate ⟨now, state.store, clean⟩ = .ok (true, record))
    (hkey : NumbersKey r.model record) (hafter : r.LeavesAlone .afterCreate now) :
    (r.create now payload state).result =
      r.ofWrite (state.store.insert ⟨now, state.drawn⟩ r.model record) := by
  refine Outcome.Meets.result_eq (Outcome.meets_within (.bind (.ofExcept ?_ ?_)))
  · intro clean' hclean'
    obtain rfl := Except.ok.inj (hclean.symm.trans (mapError_eq_ok_iff.1 hclean'))
    refine .bind (.callHook ?_ fun e he => nomatch hbefore.symm.trans he)
    rintro ⟨goesOn, record'⟩ hpassed
    obtain ⟨rfl, rfl⟩ := Prod.mk.inj (Except.ok.inj (hbefore.symm.trans hpassed))
    refine .bind (ofWrite_guarded (.bind (.draw fun drawn => .bind (.flush ?_ ?_))))
    · intro store row hinsert
      have hplaced := Store.placed_of_insert hs hm hinsert
      have hstore := hplaced.sound hs hm (hs.ascending hm) (hs.numbers hm)
      have hnamed := Store.isNamedBy_inserted (σ.keyed _ hm) hinsert hkey
      refine (settle_ensures_eq hafter hstore hm (hplaced.mem hs hm) hnamed).mono ?_
        fun _ _ => False.elim
      rintro settled _ rfl
      exact ⟨store, hinsert⟩
    · exact fun e he => ⟨e, he, rfl⟩
  · intro e he
    rw [hclean] at he
    cases he

/-- A change comes to what the store is asked to make of the row that was found. -/
theorem update_result_eq (hs : state.store.Sound σ) (hm : r.model ∈ σ.models)
    (hfind : r.find state.store address = .ok found)
    (hclean : r.sanitize payload true = .ok clean)
    (hbefore : r.runHook .beforeUpdate ⟨now, state.store,
      Entries.putAll (Record.ofRow r.model found) clean⟩ = .ok (true, record))
    (hafter : r.LeavesAlone .afterUpdate now) : (r.update now address payload state).result =
      r.ofWrite (state.store.update now r.model found (Record.ofRow r.model found) record) := by
  refine Outcome.Meets.result_eq (Outcome.meets_within (.bind (.get (.bind (.ofExcept ?_ ?_)))))
  · intro found' hfound'
    obtain rfl := Except.ok.inj (hfind.symm.trans hfound')
    refine .bind (.ofExcept ?_ ?_)
    · intro clean' hclean'
      obtain rfl := Except.ok.inj (hclean.symm.trans (mapError_eq_ok_iff.1 hclean'))
      refine .bind (.callHook ?_ fun e he => nomatch hbefore.symm.trans he)
      rintro ⟨goesOn, record'⟩ hpassed
      obtain ⟨rfl, rfl⟩ := Prod.mk.inj (Except.ok.inj (hbefore.symm.trans hpassed))
      refine .bind (ofWrite_guarded (.bind (.flush ?_ fun e he => ⟨e, he, rfl⟩)))
      intro store row hupdate
      have hmem := mem_rows_of_find hfind
      have hplaced := Store.placed_of_update hs hm hmem hupdate
      have hstore := hplaced.sound hs hm (hs.ascending_without hm _) (hs.numbers_without hm _)
      have hnamed := Store.isNamedBy_stamped (σ.keyed _ hm) (fun c hc => key_of_find hfind hc)
        hupdate
      refine (settle_ensures_eq hafter hstore hm (hplaced.mem hs hm) hnamed).mono ?_
        fun _ _ => False.elim
      rintro settled _ rfl
      exact ⟨store, hupdate⟩
    · intro e he
      rw [hclean] at he
      cases he
  · exact fun e he => nomatch hfind.symm.trans he

/-- What destroying comes to where a row is found: the row is taken out, unless another row refers
to it. -/
theorem destroy_of_find_eq_ok (h : r.find state.store address = .ok found) :
    r.destroy address state =
      if state.store.isReferenced r.model found then ⟨.error (.refused .related), state, []⟩
      else ⟨.ok (), ⟨state.store.setRows r.model (Store.without found (state.store.rows r.model)),
        state.drawn⟩, []⟩ := by
  have hdelete : (state.store.delete r.model found).map (·, ()) =
      if state.store.isReferenced r.model found then .error (.violation .reference)
      else .ok (state.store.setRows r.model (Store.without found (state.store.rows r.model)), ()) := by
    unfold Store.delete
    split <;> rfl
  have hmeets : (r.destroy address state).Meets
      (fun _ after calls => calls = [] ∧ state.store.isReferenced r.model found = false ∧ after =
        ⟨state.store.setRows r.model (Store.without found (state.store.rows r.model)), state.drawn⟩)
      (fun e after calls => calls = [] ∧ state.store.isReferenced r.model found = true ∧
        after = state ∧ e = .refused .related) := by
    refine Outcome.meets_within (.bind (.get (.bind (.ofExcept ?_ ?_))))
    · intro found' hfound'
      obtain rfl := Except.ok.inj (h.symm.trans hfound')
      refine .guarded_of (fun e s => s = Session.start state ∧
        state.store.isReferenced r.model found = true ∧ e = .store (.violation .reference))
        (.bind (.flush ?_ ?_)) ?_ ?_
      · intro store u hflush
        replace hflush := hdelete.symm.trans hflush
        split at hflush
        · cases hflush
        · next hfree =>
          cases hflush
          exact .commit ⟨rfl, by simpa using hfree, rfl⟩
      · intro e hflush
        replace hflush := hdelete.symm.trans hflush
        split at hflush
        · next hreferred =>
          cases hflush
          exact ⟨rfl, hreferred, rfl⟩
        · cases hflush
      · rintro v s ⟨rfl, hreferred, -⟩
        exact ⟨rfl, hreferred, rfl, rfl⟩
      · rintro e s hother ⟨-, -, rfl⟩
        exact absurd rfl (hother _)
    · exact fun e he => nomatch h.symm.trans he
  cases hout : r.destroy address state with
  | mk result after calls =>
    rw [hout] at hmeets
    cases result with
    | ok u =>
      obtain ⟨rfl, hfree, rfl⟩ := hmeets
      rw [hfree]
      rfl
    | error e =>
      obtain ⟨rfl, hreferred, rfl, rfl⟩ := hmeets
      rw [if_pos hreferred]

end Resource

end TableApi
