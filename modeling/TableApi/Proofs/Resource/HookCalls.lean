import TableApi.Proofs.Resource.Run

/-! When hooks are called. For every request there are points at which a hook is due, each with what
it sees: in front of a write the rows as they were, and behind it the rows with the record flushed.
The hook that stands at such a point is called there once, and no hook is called otherwise. -/

namespace TableApi.Resource

open Transaction

variable {r : Resource} {now : Calendar.Moment} {before : State} {request : Request}
  {point front back : HookPoint} {input : HookInput} {record : Record} {calls : List HookCall}

/-! ### What hooks say -/

/-- The write goes on past a point: a hook that stands there neither fails nor answers exactly
false, and it leaves this record. -/
def Passes (r : Resource) (point : HookPoint) (input : HookInput) (record : Record) : Prop :=
  match r.hook? point with
  | none => record = input.record
  | some hook => ∃ answer, hook input = .ok (answer, record) ∧ answer ≠ .bool false

def Cancels (r : Resource) (point : HookPoint) (input : HookInput) : Prop :=
  ∃ hook record, r.hook? point = some hook ∧ hook input = .ok (.bool false, record)

def Fails (r : Resource) (point : HookPoint) (input : HookInput) : Prop :=
  ∃ hook e, r.hook? point = some hook ∧ hook input = .error e

theorem runHook_eq_true_iff :
    r.runHook point input = .ok (true, record) ↔ r.Passes point input record := by
  unfold runHook Passes
  cases r.hook? point with
  | none => simp [eq_comm]
  | some hook =>
    cases hanswer : hook input with
    | error e => simp [Except.map, hanswer]
    | ok result =>
      obtain ⟨answer, left⟩ := result
      cases answer with
      | bool b => cases b <;> simp [Except.map, hanswer]
      | _ => simp [Except.map, hanswer]

theorem exists_runHook_of_cancels (h : r.Cancels point input) :
    ∃ record, r.runHook point input = .ok (false, record) := by
  obtain ⟨hook, record, hhook, hanswer⟩ := h
  exact ⟨record, by simp [runHook, hhook, hanswer, Except.map]⟩

theorem exists_runHook_of_fails (h : r.Fails point input) :
    ∃ e, r.runHook point input = .error e := by
  obtain ⟨hook, e, hhook, herror⟩ := h
  exact ⟨e, by simp [runHook, hhook, herror, Except.map]⟩

theorem Passes.unique {record' : Record} (h : r.Passes point input record)
    (h' : r.Passes point input record') : record = record' := by
  rw [← runHook_eq_true_iff] at h h'
  exact (Prod.mk.inj (Except.ok.inj (h.symm.trans h'))).2

/-! ### When a hook is due -/

/-- A hook at a point is due in a request, and this is what it sees. In front of a creation it is
due when the payload is accepted, and in front of a change when moreover the row was found. Behind
them it is due when the write went on past the point in front and the store took the record. -/
inductive Due (r : Resource) (now : Calendar.Moment) (before : State) :
    Request → HookPoint → HookInput → Prop where
  | beforeCreate {payload : Value} {clean : Record} (hclean : r.sanitize payload false = .ok clean) :
      Due r now before (.write (.create payload)) .beforeCreate ⟨now, before.store, clean⟩
  | afterCreate {payload : Value} {clean record : Record} {flushed : Store} {row : Row}
      (hclean : r.sanitize payload false = .ok clean)
      (hpasses : r.Passes .beforeCreate ⟨now, before.store, clean⟩ record)
      (hflush : before.store.insert ⟨now, before.drawn⟩ r.model record = .ok (flushed, row)) :
      Due r now before (.write (.create payload)) .afterCreate
        ⟨now, flushed, Store.inserted ⟨now, before.drawn⟩ r.model record row⟩
  | beforeUpdate {address payload : Value} {found : Row} {clean : Record}
      (hfind : r.find before.store address = .ok found)
      (hclean : r.sanitize payload true = .ok clean) :
      Due r now before (.write (.update address payload)) .beforeUpdate
        ⟨now, before.store, Entries.putAll (Record.ofRow r.model found) clean⟩
  | afterUpdate {address payload : Value} {found row : Row} {clean record : Record} {flushed : Store}
      (hfind : r.find before.store address = .ok found)
      (hclean : r.sanitize payload true = .ok clean)
      (hpasses : r.Passes .beforeUpdate
        ⟨now, before.store, Entries.putAll (Record.ofRow r.model found) clean⟩ record)
      (hflush : before.store.update now r.model found (Record.ofRow r.model found) record =
        .ok (flushed, row)) :
      Due r now before (.write (.update address payload)) .afterUpdate
        ⟨now, flushed, stamped r.model
          (Store.changes now r.model (Record.ofRow r.model found) record) record⟩

/-- A hook is due with one input only. -/
theorem Due.unique {input' : HookInput} (h : Due r now before request point input)
    (h' : Due r now before request point input') : input = input' := by
  cases h with
  | beforeCreate hclean =>
    cases h' with
    | beforeCreate hclean' =>
      rw [hclean] at hclean'
      cases hclean'
      rfl
  | afterCreate hclean hpasses hflush =>
    cases h' with
    | afterCreate hclean' hpasses' hflush' =>
      rw [hclean] at hclean'
      cases hclean'
      obtain rfl := hpasses.unique hpasses'
      rw [hflush] at hflush'
      cases hflush'
      rfl
  | beforeUpdate hfind hclean =>
    cases h' with
    | beforeUpdate hfind' hclean' =>
      rw [hfind] at hfind'
      rw [hclean] at hclean'
      cases hfind'
      cases hclean'
      rfl
  | afterUpdate hfind hclean hpasses hflush =>
    cases h' with
    | afterUpdate hfind' hclean' hpasses' hflush' =>
      rw [hfind] at hfind'
      rw [hclean] at hclean'
      cases hfind'
      cases hclean'
      obtain rfl := hpasses.unique hpasses'
      rw [hflush] at hflush'
      cases hflush'
      rfl

/-- Whether a hook at a point is called behind the write. -/
def isBehind : HookPoint → Bool
  | .afterCreate | .afterUpdate => true
  | .beforeCreate | .beforeUpdate => false

/-- The calls of a request are those that are due: of each hook one where it is due and none where
it is not, and those in front of the write before those behind it. -/
structure CallsDue (r : Resource) (now : Calendar.Moment) (before : State) (request : Request)
    (calls : List HookCall) : Prop where
  once : ∀ point input, Due r now before request point input →
    calls.filter (·.point = point) = r.callsAt point input
  never : ∀ point, (∀ input, ¬ Due r now before request point input) →
    calls.filter (·.point = point) = []
  ordered : calls.Pairwise fun call next => isBehind call.point = true → isBehind next.point = true

/-! ### Calls at one point -/

/-- The calls at a point: one with what is due there, or none. -/
inductive CallsAt (r : Resource) (now : Calendar.Moment) (before : State) (request : Request)
    (point : HookPoint) : List HookCall → Prop where
  | due {input : HookInput} (h : Due r now before request point input) :
      CallsAt r now before request point (r.callsAt point input)
  | none (h : ∀ input, ¬ Due r now before request point input) :
      CallsAt r now before request point []

theorem point_of_mem_callsAt {call : HookCall} (h : call ∈ r.callsAt point input) :
    call.point = point := by
  unfold callsAt at h
  split at h
  · cases h
  · rw [List.mem_singleton.1 h]

theorem CallsAt.point_eq (h : CallsAt r now before request point calls) :
    ∀ call ∈ calls, call.point = point := by
  cases h with
  | due h => exact fun call hcall => point_of_mem_callsAt hcall
  | none h => simp

theorem CallsAt.filter (h : CallsAt r now before request point calls) (other : HookPoint) :
    calls.filter (·.point = other) = if point = other then calls else [] := by
  split
  · next heq =>
    rw [List.filter_eq_self]
    intro call hcall
    simp [h.point_eq call hcall, heq]
  · next hne =>
    rw [List.filter_eq_nil_iff]
    intro call hcall
    simp [h.point_eq call hcall, hne]

theorem CallsAt.eq_callsAt (h : CallsAt r now before request point calls)
    (hdue : Due r now before request point input) : calls = r.callsAt point input := by
  cases h with
  | due h => rw [h.unique hdue]
  | none h => exact absurd hdue (h input)

theorem CallsAt.eq_nil (h : CallsAt r now before request point calls)
    (hnone : ∀ input, ¬ Due r now before request point input) : calls = [] := by
  cases h with
  | due h => exact absurd h (hnone _)
  | none h => rfl

theorem CallsAt.pairwise (h : CallsAt r now before request point calls)
    (R : HookCall → HookCall → Prop) : calls.Pairwise R := by
  cases h with
  | due h =>
    unfold callsAt
    split
    · exact List.Pairwise.nil
    · exact List.pairwise_singleton _ _
  | none h => exact List.Pairwise.nil

/-- A request calls what is due at the two points around its write. -/
theorem callsDue_append {X Y : List HookCall} (hX : CallsAt r now before request front X)
    (hY : CallsAt r now before request back Y)
    (hpoints : ∀ point input, Due r now before request point input → point = front ∨ point = back)
    (hfront : isBehind front = false) (hback : isBehind back = true) :
    CallsDue r now before request (X ++ Y) := by
  have hne : front ≠ back := by
    rintro rfl
    rw [hfront] at hback
    cases hback
  have hat (point : HookPoint) : (X ++ Y).filter (·.point = point) =
      (if front = point then X else []) ++ if back = point then Y else [] := by
    rw [List.filter_append, hX.filter, hY.filter]
  refine ⟨?_, ?_, ?_⟩
  · intro point input hdue
    rcases hpoints point input hdue with rfl | rfl
    · rw [hat, if_pos rfl, if_neg hne.symm, List.append_nil, hX.eq_callsAt hdue]
    · rw [hat, if_neg hne, if_pos rfl, List.nil_append, hY.eq_callsAt hdue]
  · intro point hnone
    rw [hat]
    by_cases hp : front = point
    · subst hp
      rw [if_pos rfl, if_neg hne.symm, hX.eq_nil hnone, List.append_nil]
    · rw [if_neg hp, List.nil_append]
      split
      · next hq =>
        subst hq
        exact hY.eq_nil hnone
      · rfl
  · refine List.pairwise_append.2 ⟨hX.pairwise _, hY.pairwise _, ?_⟩
    intro call hcall next hnext hbehind
    rw [hX.point_eq call hcall, hfront] at hbehind
    cases hbehind

theorem callsDue_nil (h : ∀ point input, ¬ Due r now before request point input) :
    CallsDue r now before request [] :=
  ⟨fun point input hdue => absurd hdue (h point input), fun _ _ => rfl, List.Pairwise.nil⟩

theorem callsDue_of_stopped (hdue : Due r now before request front input)
    (hpoints : ∀ point input, Due r now before request point input → point = front ∨ point = back)
    (hfront : isBehind front = false) (hback : isBehind back = true)
    (hstopped : ∀ input, ¬ Due r now before request back input) :
    CallsDue r now before request (r.callsAt front input) := by
  have hall := callsDue_append (.due hdue) (.none hstopped) hpoints hfront hback
  rwa [List.append_nil] at hall

/-! ### Calls of a request -/

/-- What is called from a flush on: the hook behind it where the store takes the change, whatever
follows, and no hook where it does not. -/
inductive FlushCalls (r : Resource) (now : Calendar.Moment) (point : HookPoint)
    (change : Store → Except StoreError (Store × Row)) (known : Row → Record) (s : Session) :
    List HookCall → Prop where
  | taken {flushed : Store} {row : Row} (h : change s.working = .ok (flushed, row)) :
      FlushCalls r now point change known s (s.calls ++ r.callsAt point ⟨now, flushed, known row⟩)
  | refused {e : StoreError} (h : change s.working = .error e) :
      FlushCalls r now point change known s s.calls

theorem flush_settle_calls {change : Store → Except StoreError (Store × Row)}
    {known : Row → Record} {s : Session} :
    Ensures (flush change >>= fun row => r.settle point now row (known row)) s
      (fun _ s' => FlushCalls r now point change known s s'.calls)
      (fun _ s' => FlushCalls r now point change known s s'.calls) := by
  refine .bind (.flush ?_ fun e he => .refused he)
  intro flushed row htaken
  have hcalls : FlushCalls r now point change known s
      (s.calls ++ r.callsAt point ⟨now, flushed, known row⟩) := .taken htaken
  refine .bind (.callHook ?_ fun _ _ => hcalls)
  rintro ⟨answer, changed⟩ -
  refine .bind (.flush ?_ fun _ _ => hcalls)
  intro store next _
  exact .bind (.commit (.refresh (fun _ _ => hcalls) fun _ => hcalls))

section Creating

variable {payload : Value}

theorem point_of_due_create (h : Due r now before (.write (.create payload)) point input) :
    point = .beforeCreate ∨ point = .afterCreate := by
  cases h with
  | beforeCreate _ => exact .inl rfl
  | afterCreate _ _ _ => exact .inr rfl

/-- A hook is due behind a creation only where the write went on past the point in front and the
store took the record. -/
theorem of_due_afterCreate {clean : Record} (hclean : r.sanitize payload false = .ok clean)
    (h : Due r now before (.write (.create payload)) .afterCreate input) :
    ∃ record result, r.runHook .beforeCreate ⟨now, before.store, clean⟩ = .ok (true, record) ∧
      before.store.insert ⟨now, before.drawn⟩ r.model record = .ok result := by
  cases h with
  | afterCreate hclean' hpasses hflush =>
    rw [hclean] at hclean'
    cases hclean'
    exact ⟨_, _, runHook_eq_true_iff.2 hpasses, hflush⟩

/-- A creation calls the hooks that are due. -/
theorem creating_calls (r : Resource) (now : Calendar.Moment) (payload : Value) (before : State) :
    (r.creating now payload).Ensures (Session.start before)
      (fun _ s => CallsDue r now before (.write (.create payload)) s.calls)
      (fun _ s => CallsDue r now before (.write (.create payload)) s.calls) := by
  refine .bind (.ofExcept ?_ ?_)
  · intro clean hclean
    rw [mapError_eq_ok_iff] at hclean
    have hfront : Due r now before (.write (.create payload)) .beforeCreate
      ⟨now, before.store, clean⟩ := .beforeCreate hclean
    have hstops := callsDue_of_stopped hfront (fun _ _ => point_of_due_create) rfl rfl
    refine .bind (.callHook ?_ ?_)
    · rintro ⟨goesOn, record⟩ hrun
      change r.runHook .beforeCreate ⟨now, before.store, clean⟩ = _ at hrun
      cases goesOn with
      | false =>
        refine .bind (.throw (hstops fun input hdue => ?_))
        obtain ⟨left, -, hrun', -⟩ := of_due_afterCreate hclean hdue
        rw [hrun] at hrun'
        cases hrun'
      | true =>
        have hends {calls : List HookCall} {drawn : Nat} (hcalls : FlushCalls r now .afterCreate
            (fun s => s.insert ⟨now, before.drawn⟩ r.model record)
            (Store.inserted ⟨now, before.drawn⟩ r.model record)
            ⟨before.store, before.store, drawn, r.callsAt .beforeCreate ⟨now, before.store, clean⟩⟩
            calls) : CallsDue r now before (.write (.create payload)) calls := by
          cases hcalls with
          | taken hflush =>
            have hback := Due.afterCreate hclean (runHook_eq_true_iff.1 hrun) hflush
            exact callsDue_append (.due hfront) (.due hback) (fun _ _ => point_of_due_create) rfl rfl
          | refused hflush =>
            refine hstops fun input hdue => ?_
            obtain ⟨left, result, hrun', hflush'⟩ := of_due_afterCreate hclean hdue
            rw [hrun] at hrun'
            cases hrun'
            cases hflush.symm.trans hflush'
        refine .bind (.guarded (.bind (.draw fun drawn => ?_)) fun _ _ h => h)
        exact flush_settle_calls.mono (fun _ _ hcalls => .pure (hends hcalls)) fun _ _ => hends
    · intro e hrun
      refine hstops fun input hdue => ?_
      obtain ⟨left, -, hrun', -⟩ := of_due_afterCreate hclean hdue
      cases hrun.symm.trans hrun'
  · intro e he
    refine callsDue_nil fun point input hdue => ?_
    cases hdue <;> simp_all [Except.mapError]

end Creating

section Updating

variable {address payload : Value}

theorem point_of_due_update (h : Due r now before (.write (.update address payload)) point input) :
    point = .beforeUpdate ∨ point = .afterUpdate := by
  cases h with
  | beforeUpdate _ _ => exact .inl rfl
  | afterUpdate _ _ _ _ => exact .inr rfl

/-- A hook is due behind a change only where the write went on past the point in front and the store
took the change. -/
theorem of_due_afterUpdate {found : Row} {clean : Record}
    (hfind : r.find before.store address = .ok found) (hclean : r.sanitize payload true = .ok clean)
    (h : Due r now before (.write (.update address payload)) .afterUpdate input) :
    ∃ record result, r.runHook .beforeUpdate
        ⟨now, before.store, Entries.putAll (Record.ofRow r.model found) clean⟩ = .ok (true, record) ∧
      before.store.update now r.model found (Record.ofRow r.model found) record = .ok result := by
  cases h with
  | afterUpdate hfind' hclean' hpasses hflush =>
    rw [hfind] at hfind'
    rw [hclean] at hclean'
    cases hfind'
    cases hclean'
    exact ⟨_, _, runHook_eq_true_iff.2 hpasses, hflush⟩

/-- A change calls the hooks that are due. -/
theorem updating_calls (r : Resource) (now : Calendar.Moment) (address payload : Value)
    (before : State) : (r.updating now address payload).Ensures (Session.start before)
      (fun _ s => CallsDue r now before (.write (.update address payload)) s.calls)
      (fun _ s => CallsDue r now before (.write (.update address payload)) s.calls) := by
  refine .bind (.get (.bind (.ofExcept ?_ ?_)))
  · intro found hfind
    change r.find before.store address = .ok found at hfind
    refine .bind (.ofExcept ?_ ?_)
    · intro clean hclean
      rw [mapError_eq_ok_iff] at hclean
      have hfront : Due r now before (.write (.update address payload)) .beforeUpdate
        ⟨now, before.store, Entries.putAll (Record.ofRow r.model found) clean⟩ :=
          .beforeUpdate hfind hclean
      have hstops := callsDue_of_stopped hfront (fun _ _ => point_of_due_update) rfl rfl
      refine .bind (.callHook ?_ ?_)
      · rintro ⟨goesOn, record⟩ hrun
        change r.runHook .beforeUpdate ⟨now, before.store, _⟩ = _ at hrun
        cases goesOn with
        | false =>
          refine .bind (.rollback (.bind (.throw (hstops fun input hdue => ?_))))
          obtain ⟨left, -, hrun', -⟩ := of_due_afterUpdate hfind hclean hdue
          cases hrun.symm.trans hrun'
        | true =>
          have hends {calls : List HookCall} (hcalls : FlushCalls r now .afterUpdate
              (fun s => s.update now r.model found (Record.ofRow r.model found) record)
              (fun _ => stamped r.model
                (Store.changes now r.model (Record.ofRow r.model found) record) record)
              ⟨before.store, before.store, before.drawn, r.callsAt .beforeUpdate
                ⟨now, before.store, Entries.putAll (Record.ofRow r.model found) clean⟩⟩ calls) :
              CallsDue r now before (.write (.update address payload)) calls := by
            cases hcalls with
            | taken hflush =>
              have hback := Due.afterUpdate hfind hclean (runHook_eq_true_iff.1 hrun) hflush
              exact callsDue_append (.due hfront) (.due hback)
                (fun _ _ => point_of_due_update) rfl rfl
            | refused hflush =>
              refine hstops fun input hdue => ?_
              obtain ⟨left, result, hrun', hflush'⟩ := of_due_afterUpdate hfind hclean hdue
              cases hrun.symm.trans hrun'
              cases hflush.symm.trans hflush'
          refine .bind (.guarded ?_ fun _ _ h => h)
          exact flush_settle_calls.mono (fun _ _ hcalls => .pure (hends hcalls)) fun _ _ => hends
      · intro e hrun
        refine hstops fun input hdue => ?_
        obtain ⟨left, -, hrun', -⟩ := of_due_afterUpdate hfind hclean hdue
        cases hrun.symm.trans hrun'
    · intro e he
      refine callsDue_nil fun point input hdue => ?_
      cases hdue <;> simp_all [Except.mapError]
  · intro e he
    refine callsDue_nil fun point input hdue => ?_
    change r.find before.store address = .error e at he
    cases hdue <;> simp_all

end Updating

theorem destroying_calls (r : Resource) (address : Value) (before : State) :
    (r.destroying address).Ensures (Session.start before) (fun _ s => s.calls = [])
      (fun _ s => s.calls = []) := by
  refine .bind (.get (.bind (.ofExcept ?_ fun _ _ => rfl)))
  intro row _
  exact .guarded (.bind (.flush (fun _ _ _ => .commit rfl) fun _ _ => rfl)) fun _ _ h => h

/-- Every request calls the hooks that are due, and only those. -/
theorem serve_calls (r : Resource) (now : Calendar.Moment) (request : Request) (before : State) :
    CallsDue r now before request (r.serve now request before).calls := by
  cases request with
  | index params requested => exact callsDue_nil fun _ _ hdue => nomatch hdue
  | show_ address requested => exact callsDue_nil fun _ _ hdue => nomatch hdue
  | write request =>
    cases request with
    | create payload =>
      have h : (r.create now payload before).Meets (fun _ _ => CallsDue r now before _)
        (fun _ _ => CallsDue r now before _) :=
          Outcome.meets_within (creating_calls r now payload before)
      exact h.calls
    | update address payload =>
      have h : (r.update now address payload before).Meets (fun _ _ => CallsDue r now before _)
        (fun _ _ => CallsDue r now before _) :=
          Outcome.meets_within (updating_calls r now address payload before)
      exact h.calls
    | destroy address =>
      have h : (r.destroy address before).Meets (fun _ _ calls => calls = [])
        (fun _ _ calls => calls = []) := Outcome.meets_within (destroying_calls r address before)
      have hcalls : (r.serve now (.write (.destroy address)) before).calls = [] := h.calls
      rw [hcalls]
      exact callsDue_nil fun _ _ hdue => nomatch hdue

end TableApi.Resource
