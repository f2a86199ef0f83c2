import TableApi.Proofs.Except
import TableApi.Resource.Session

/-! What transactions guarantee. A transaction is judged from one session on, by what holds of its
result and of the session behind it, and by what holds where it fails. There is one rule for every
way of building a transaction. -/

namespace TableApi

namespace Transaction

variable {α β : Type}

/-- From a session on the transaction ends well, with `good` of its result and its session, or it
fails with `bad` of the error and its session. -/
def Ensures (t : Transaction α) (s : Session) (good : α → Session → Prop)
    (bad : ServiceError → Session → Prop) : Prop :=
  match (t.run.run s : Except ServiceError α × Session) with
  | (.ok a, s') => good a s'
  | (.error e, s') => bad e s'

namespace Ensures

variable {s : Session} {good : α → Session → Prop} {bad : ServiceError → Session → Prop}

theorem pure {a : α} (h : good a s) : Ensures (Pure.pure a) s good bad := h

theorem throw {e : ServiceError} (h : bad e s) :
    Ensures (MonadExcept.throw e : Transaction α) s good bad := h

theorem bind {t : Transaction α} {f : α → Transaction β} {good : β → Session → Prop}
    (h : t.Ensures s (fun a s' => (f a).Ensures s' good bad) bad) :
    (t >>= f).Ensures s good bad := by
  unfold Ensures at h ⊢
  simp only [ExceptT.run_bind, StateT.run_bind]
  cases hrun : (t.run.run s : Except ServiceError α × Session) with
  | mk result s' =>
    rw [hrun] at h
    cases result with
    | ok a => exact h
    | error e => exact h

theorem tryCatch {t : Transaction α} {handler : ServiceError → Transaction α}
    (h : t.Ensures s good fun e s' => (handler e).Ensures s' good bad) :
    Ensures (MonadExcept.tryCatch t handler) s good bad := by
  unfold Ensures at h ⊢
  simp only [ExceptT.run_tryCatch, StateT.run_bind]
  cases hrun : (t.run.run s : Except ServiceError α × Session) with
  | mk result s' =>
    rw [hrun] at h
    cases result with
    | ok a => exact h
    | error e => exact h

theorem mono {t : Transaction α} {good' : α → Session → Prop}
    {bad' : ServiceError → Session → Prop} (h : t.Ensures s good bad)
    (hgood : ∀ a s', good a s' → good' a s') (hbad : ∀ e s', bad e s' → bad' e s') :
    t.Ensures s good' bad' := by
  unfold Ensures at h ⊢
  cases hrun : (t.run.run s : Except ServiceError α × Session) with
  | mk result s' =>
    rw [hrun] at h
    cases result with
    | ok a => exact hgood a s' h
    | error e => exact hbad e s' h

theorem ofExcept {x : Except ServiceError α} (hok : ∀ a, x = .ok a → good a s)
    (herror : ∀ e, x = .error e → bad e s) :
    Ensures (MonadExcept.ofExcept x : Transaction α) s good bad := by
  cases x with
  | ok a => exact hok a rfl
  | error e => exact herror e rfl

theorem get {good : Session → Session → Prop} (h : good s s) :
    Ensures (MonadState.get : Transaction Session) s good bad := h

theorem modifies {f : Session → Session} {good : Unit → Session → Prop} (h : good () (f s)) :
    Ensures (modify f : Transaction Unit) s good bad := h

theorem rollback {good : Unit → Session → Prop} (h : good () { s with working := s.committed }) :
    Ensures Transaction.rollback s good bad := h

theorem commit {good : Unit → Session → Prop} (h : good () { s with committed := s.working }) :
    Ensures Transaction.commit s good bad := h

/-- A change that the store takes goes on in its working rows; one that it refuses rolls back. -/
theorem flush {change : Store → Except StoreError (Store × α)}
    (hok : ∀ store a, change s.working = .ok (store, a) → good a { s with working := store })
    (herror : ∀ e, change s.working = .error e →
      bad (.store e) { s with working := s.committed }) :
    Ensures (Transaction.flush change) s good bad := by
  refine bind (get ?_)
  cases hchange : change s.working with
  | ok result =>
    obtain ⟨store, a⟩ := result
    refine bind (modifies ?_)
    exact hok store a hchange
  | error e =>
    refine bind (modifies ?_)
    exact herror e hchange

theorem draw {now : Calendar.Moment} {m : Model} {r : Record} {good : Supply → Session → Prop}
    (h : ∀ drawn, good ⟨now, s.drawn⟩ { s with drawn }) :
    Ensures (Transaction.draw now m r) s good bad := by
  refine bind (get ?_)
  by_cases hdraws : r.draws m
  · rw [if_pos hdraws]
    exact bind (modifies (h _))
  · rw [if_neg hdraws]
    exact h s.drawn

/-- A hook sees the working rows, and only the list of calls knows of it afterwards. -/
theorem callHook {r : Resource} {point : HookPoint} {now : Calendar.Moment} {record : Record}
    {good : Bool × Record → Session → Prop}
    (hok : ∀ answer, r.runHook point ⟨now, s.working, record⟩ = .ok answer →
      good answer { s with calls := s.calls ++ r.callsAt point ⟨now, s.working, record⟩ })
    (herror : ∀ e, r.runHook point ⟨now, s.working, record⟩ = .error e →
      bad (.ofHook e) { s with calls := s.calls ++ r.callsAt point ⟨now, s.working, record⟩ }) :
    Ensures (Transaction.callHook r point now record) s good bad := by
  refine bind (get (bind (modifies (ofExcept ?_ ?_))))
  · intro answer hanswer
    exact hok answer (mapError_eq_ok_iff.1 hanswer)
  · intro e he
    cases hrun : r.runHook point ⟨now, s.working, record⟩ with
    | ok found =>
      rw [hrun] at he
      cases he
    | error failure =>
      rw [hrun] at he
      cases he
      exact herror _ hrun

theorem refresh {m : Model} {row : Row} {known : Record} {good : Row → Session → Prop}
    (hfound : ∀ found, (s.working.rows m).find? (fun r =>
      r.number == row.number && r.isNamedBy m known) = some found → good found s)
    (hmissing : (s.working.rows m).find? (fun r =>
      r.number == row.number && r.isNamedBy m known) = none → bad (.lost m.name) s) :
    Ensures (Transaction.refresh m row known) s good bad := by
  refine bind (get ?_)
  cases hfind : (s.working.rows m).find? fun r =>
      r.number == row.number && r.isNamedBy m known with
  | some found => exact hfound found hfind
  | none => exact hmissing hfind

/-- A broken rule is rolled back and refused, and any other failure stays what it is. -/
theorem guarded_of (bad' : ServiceError → Session → Prop) {refusal : Refusal} {t : Transaction α}
    (h : t.Ensures s good bad')
    (hviolation : ∀ v s', bad' (.store (.violation v)) s' →
      bad (.refused refusal) { s' with working := s'.committed })
    (hother : ∀ e s', (∀ v, e ≠ .store (.violation v)) → bad' e s' → bad e s') :
    Ensures (Transaction.guarded refusal t) s good bad := by
  refine tryCatch (h.mono (fun _ _ => id) ?_)
  intro e s' he
  split
  · exact bind (rollback (throw (hviolation _ s' he)))
  · next hne => exact throw (hother e s' hne he)

/-- What holds of all failures of a write holds of those that are left behind the guard. -/
theorem guarded {refusal : Refusal} {t : Transaction α} (h : t.Ensures s good bad)
    (hviolation : ∀ v s', bad (.store (.violation v)) s' →
      bad (.refused refusal) { s' with working := s'.committed }) :
    Ensures (Transaction.guarded refusal t) s good bad :=
  guarded_of bad h hviolation fun _ _ _ => id

end Ensures

end Transaction

namespace Outcome

variable {α β : Type}

def map (f : α → β) (out : Outcome α) : Outcome β := ⟨out.result.map f, out.state, out.calls⟩

/-- What a failed request leaves of the store: what it committed where its row was lost behind the
commit, and the store as it was where it failed before. -/
def Leaves (before : Store) (loses : Store → Prop) (e : ServiceError) (after : Store) : Prop :=
  if e.isLost then loses after else after = before

theorem Leaves.of_eq {before after : Store} {loses : Store → Prop} {e : ServiceError}
    (he : e.isLost = false) (h : after = before) : Leaves before loses e after := by
  rw [Leaves, if_neg (by simp [he])]
  exact h

theorem Leaves.of_lost {before after : Store} {loses : Store → Prop} {e : ServiceError}
    (he : e.isLost = true) (h : loses after) : Leaves before loses e after := by
  rw [Leaves, if_pos he]
  exact h

theorem Leaves.mono {before after : Store} {loses loses' : Store → Prop} {e : ServiceError}
    (h : Leaves before loses e after) (hloses : loses after → loses' after) :
    Leaves before loses' e after := by
  unfold Leaves at h ⊢
  split
  · next he =>
    rw [if_pos he] at h
    exact hloses h
  · next he => rwa [if_neg he] at h

/-- A request that succeeds commits what it has to, one whose row is lost has committed it all the
same, and any other that fails leaves the store as it was. -/
def WholeOrNothing (out : Outcome α) (before : State) (commits : α → Store → Prop)
    (loses : Store → Prop) : Prop :=
  match out.result with
  | .ok a => commits a out.state.store
  | .error e => Leaves before.store loses e out.state.store

theorem WholeOrNothing.of_ok {out : Outcome α} {before : State} {commits : α → Store → Prop}
    {loses : Store → Prop} (h : out.WholeOrNothing before commits loses) {a : α}
    (hok : out.result = .ok a) : commits a out.state.store := by
  unfold WholeOrNothing at h
  rw [hok] at h
  exact h

theorem WholeOrNothing.map {out : Outcome α} {before : State} {commits : α → Store → Prop}
    {commits' : β → Store → Prop} {loses : Store → Prop}
    (h : out.WholeOrNothing before commits loses) (f : α → β)
    (hcommits : ∀ a store, commits a store → commits' (f a) store) :
    (out.map f).WholeOrNothing before commits' loses := by
  obtain ⟨result, state, calls⟩ := out
  cases result with
  | ok a => exact hcommits a _ h
  | error e => exact h

/-- What holds of an answer, or of the reason of a failure, with the state behind the request and
its calls. -/
def Meets (out : Outcome α) (good : α → State → List HookCall → Prop)
    (bad : ServiceError → State → List HookCall → Prop) : Prop :=
  match out.result with
  | .ok a => good a out.state out.calls
  | .error e => bad e out.state out.calls

/-- In a session of its own a transaction meets what it ensures from a new session on. -/
theorem meets_within {t : Transaction α} {state : State} {good : α → State → List HookCall → Prop}
    {bad : ServiceError → State → List HookCall → Prop}
    (h : t.Ensures (Session.start state) (fun a s => good a s.close s.calls)
      fun e s => bad e s.close s.calls) : (Session.within state t).Meets good bad := by
  unfold Transaction.Ensures at h
  unfold Meets Session.within
  cases hrun : (t.run.run (Session.start state) : Except ServiceError α × Session) with
  | mk result s =>
    rw [hrun] at h
    cases result with
    | ok a => exact h
    | error e => exact h

theorem Meets.result_eq {out : Outcome α} {x : Except ServiceError α}
    (h : out.Meets (fun a _ _ => x = .ok a) fun e _ _ => x = .error e) : out.result = x := by
  obtain ⟨result, state, calls⟩ := out
  cases result with
  | ok a => exact h.symm
  | error e => exact h.symm

theorem Meets.calls {out : Outcome α} {p : List HookCall → Prop}
    (h : out.Meets (fun _ _ => p) fun _ _ => p) : p out.calls := by
  obtain ⟨result, state, calls⟩ := out
  cases result with
  | ok a => exact h
  | error e => exact h

/-- A transaction in a session of its own does so when that is what it ensures. -/
theorem wholeOrNothing_within {t : Transaction α} {state : State} {commits : α → Store → Prop}
    {loses : Store → Prop} (h : t.Ensures (Session.start state) (fun a s => commits a s.committed)
      fun e s => Leaves state.store loses e s.committed) :
    (Session.within state t).WholeOrNothing state commits loses := by
  have hmeets : (Session.within state t).Meets (fun a after _ => commits a after.store)
    (fun e after _ => Leaves state.store loses e after.store) := meets_within h
  exact hmeets

end Outcome

end TableApi
