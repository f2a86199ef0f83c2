import TableApi.Proofs.Resource.Commit

/-! Runs of requests to a resource, one after the other on the state that they leave. A sound store
stays sound over every run. -/

namespace TableApi.Resource

/-- The requests to a resource. -/
inductive Request where
  | index (params : Entries Value) (requested : Option String)
  | show_ (address : Value) (requested : Option String)
  | write (request : WriteRequest)

/-- Do what a request asks for; only those that write change the state. -/
def serve (r : Resource) (now : Calendar.Moment) (request : Request) (state : State) :
    Outcome (Option (Entries Value)) :=
  match request with
  | .index params requested => ⟨(r.index params requested state.store).map some, state, []⟩
  | .show_ address requested => ⟨(r.show_ address requested state.store).map some, state, []⟩
  | .write request => r.perform now request state

/-- The state behind a run of requests, each at its own time. -/
def run (r : Resource) (state : State) (requests : List (Calendar.Moment × Request)) : State :=
  requests.foldl (fun state q => (r.serve q.1 q.2 state).state) state

structure Event where
  request : Request
  result : Except ServiceError (Option (Entries Value))

/-- The events of a run. -/
def log (r : Resource) : State → List (Calendar.Moment × Request) → List Event
  | _, [] => []
  | state, (now, request) :: rest =>
    let out := r.serve now request state
    ⟨request, out.result⟩ :: log r out.state rest

variable {σ : Schema} {r : Resource} {state : State}

@[simp] theorem run_nil (r : Resource) (state : State) : r.run state [] = state := rfl

theorem run_concat (r : Resource) (state : State) (requests : List (Calendar.Moment × Request))
    (q : Calendar.Moment × Request) :
    r.run state (requests ++ [q]) = (r.serve q.1 q.2 (r.run state requests)).state :=
  List.foldl_concat _ _ _ _

theorem run_append (r : Resource) (state : State)
    (front back : List (Calendar.Moment × Request)) :
    r.run state (front ++ back) = r.run (r.run state front) back :=
  List.foldl_append

theorem log_concat (r : Resource) (state : State) (requests : List (Calendar.Moment × Request))
    (q : Calendar.Moment × Request) : r.log state (requests ++ [q]) =
      r.log state requests ++ [⟨q.2, (r.serve q.1 q.2 (r.run state requests)).result⟩] := by
  induction requests generalizing state with
  | nil => rfl
  | cons first rest ih => exact congrArg _ (ih _)

/-- What may come of a request: its one row is added, replaced or taken out, and where it only reads
or fails the store is as it was, unless the row that it wrote is lost. -/
inductive Serves (r : Resource) (now : Calendar.Moment) (before : State) :
    Request → Except ServiceError (Option (Entries Value)) → Store → Prop where
  | listed {params : Entries Value} {requested : Option String}
      {result : Except ServiceError (Option (Entries Value))} :
      Serves r now before (.index params requested) result before.store
  | shown {address : Value} {requested : Option String}
      {result : Except ServiceError (Option (Entries Value))} :
      Serves r now before (.show_ address requested) result before.store
  | failed (request : WriteRequest) (e : ServiceError) :
      Serves r now before (.write request) (.error e) before.store
  | lostCreation {payload : Value} {after : Store} (c : Creation r now payload before after)
      (hlost : ¬ c.IsNamed) (e : ServiceError) :
      Serves r now before (.write (.create payload)) (.error e) after
  | lostChange {address payload : Value} {after : Store}
      (c : Change r now address payload before.store after) (hlost : ¬ c.IsNamed)
      (e : ServiceError) : Serves r now before (.write (.update address payload)) (.error e) after
  | created {payload : Value} {after : Store} (c : Creation r now payload before after) :
      Serves r now before (.write (.create payload)) (.ok (some (r.answerRow .write none c.row)))
        after
  | changed {address payload : Value} {after : Store}
      (c : Change r now address payload before.store after) :
      Serves r now before (.write (.update address payload))
        (.ok (some (r.answerRow .write none c.row))) after
  | destroyed {address : Value} {after : Store} (c : Removal r address before.store after) :
      Serves r now before (.write (.destroy address)) (.ok none) after

/-- Every request to a resource with a sound store is served so. -/
theorem serves_of_sound (hs : state.store.Sound σ) (hm : r.model ∈ σ.models)
    (now : Calendar.Moment) (request : Request) : r.Serves now state request
      (r.serve now request state).result (r.serve now request state).state.store := by
  cases request with
  | index params requested => exact .listed
  | show_ address requested => exact .shown
  | write request =>
    have h := perform_of_sound hs hm now request
    change r.Serves now state (.write request) (r.perform now request state).result
      (r.perform now request state).state.store
    generalize r.perform now request state = out at h ⊢
    obtain ⟨result, ⟨after, drawn⟩, calls⟩ := out
    cases result with
    | error e =>
      replace h : Outcome.Leaves state.store (r.Loses now request state) e after := h
      unfold Outcome.Leaves at h
      split at h
      · cases request with
        | create payload => exact h.elim fun c hlost => .lostCreation c hlost e
        | update address payload => exact h.elim fun c hlost => .lostChange c hlost e
        | destroy address => exact h.elim
      · rw [h]
        exact .failed request e
    | ok answer =>
      replace h : r.Commits now request state answer after := h
      cases request with
      | create payload =>
        obtain ⟨c, rfl, -⟩ := h
        exact .created c
      | update address payload =>
        obtain ⟨c, rfl, -⟩ := h
        exact .changed c
      | destroy address =>
        obtain ⟨rfl, ⟨c⟩⟩ := h
        exact .destroyed c

theorem sound_serve (hs : state.store.Sound σ) (hm : r.model ∈ σ.models) (now : Calendar.Moment)
    (request : Request) : (r.serve now request state).state.store.Sound σ := by
  cases request with
  | index params requested => exact hs
  | show_ address requested => exact hs
  | write request => exact sound_perform hs hm now request

theorem sound_run (hs : state.store.Sound σ) (hm : r.model ∈ σ.models)
    (requests : List (Calendar.Moment × Request)) : (r.run state requests).store.Sound σ := by
  induction requests generalizing state with
  | nil => exact hs
  | cons q rest ih => exact ih (sound_serve hs hm q.1 q.2)

end TableApi.Resource
