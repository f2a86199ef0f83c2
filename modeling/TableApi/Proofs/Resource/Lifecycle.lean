import TableApi.Proofs.Resource.HookCalls
import TableApi.Proofs.Store.Named

/-! The protocol of hooks over sequences of requests. In front of a write nothing of its record is
in the store; behind it the record is flushed and its key is known, but nothing is committed, as is
seen from what is left when the hook there fails. A hook in front that answers false cancels the
write, and what a hook behind answers is never looked at. -/

namespace TableApi.Resource

open Transaction

variable {σ : Schema} {r : Resource} {now : Calendar.Moment} {before : State} {request : Request}
  {point : HookPoint} {input : HookInput} {record : Record} {payload address : Value} {after : Store}

/-! ### Resources with other hooks -/

/-- The resource with another hook at every point where it has one. -/
def mapHooks (r : Resource) (f : HookPoint → Hook → Hook) : Resource :=
  { r with hooks := r.hooks.map fun (point, hook) => (point, f point hook) }

theorem hook?_mapHooks (r : Resource) (f : HookPoint → Hook → Hook) (point : HookPoint) :
    (r.mapHooks f).hook? point = (r.hook? point).map (f point) := by
  unfold mapHooks hook?
  induction r.hooks with
  | nil => rfl
  | cons first rest ih =>
    obtain ⟨other, hook⟩ := first
    rw [List.map_cons, List.lookup_cons, List.lookup_cons, ih]
    cases h : point == other with
    | true => rw [eq_of_beq h]; rfl
    | false => rfl

theorem callsAt_mapHooks (r : Resource) (f : HookPoint → Hook → Hook) (point : HookPoint)
    (input : HookInput) : (r.mapHooks f).callsAt point input = r.callsAt point input := by
  unfold callsAt
  rw [hook?_mapHooks]
  cases r.hook? point <;> rfl

theorem runHook_mapHooks {f : HookPoint → Hook → Hook} (h : ∀ hook, f point hook = hook)
    (input : HookInput) : (r.mapHooks f).runHook point input = r.runHook point input := by
  unfold runHook
  rw [hook?_mapHooks]
  cases r.hook? point with
  | none => rfl
  | some hook => rw [Option.map_some, h]

/-- The resource whose hook at a point fails, when it has one there. -/
def breakingAt (r : Resource) (point : HookPoint) : Resource :=
  r.mapHooks fun other hook => if other = point then fun _ => .error (.failure "") else hook

/-- The resource whose hooks behind writes do the same and answer something else. -/
def answering (r : Resource) (answers : HookPoint → HookInput → Value) : Resource :=
  r.mapHooks fun point hook =>
    if isBehind point then fun input => (hook input).map fun left => (answers point input, left.2)
    else hook

/-! ### A hook that fails -/

theorem Creation.exists_runHook (c : Creation r now payload before after)
    (h : Due r now before (.write (.create payload)) point input) :
    ∃ answer, r.runHook point input = .ok answer := by
  rcases point_of_due_create h with rfl | rfl
  · obtain rfl := h.unique (.beforeCreate c.sanitized)
    exact ⟨_, c.passed⟩
  · obtain rfl := h.unique (.afterCreate c.sanitized (runHook_eq_true_iff.1 c.passed) c.inserted)
    exact ⟨_, c.followed⟩

theorem Change.exists_runHook (c : Change r now address payload before.store after)
    (h : Due r now before (.write (.update address payload)) point input) :
    ∃ answer, r.runHook point input = .ok answer := by
  rcases point_of_due_update h with rfl | rfl
  · obtain rfl := h.unique (.beforeUpdate c.at_address c.sanitized)
    exact ⟨_, c.passed⟩
  · obtain rfl := h.unique
      (.afterUpdate c.at_address c.sanitized (runHook_eq_true_iff.1 c.passed) c.written)
    exact ⟨_, c.followed⟩

/-- When the hook fails that is due at a point, so does the request, and it leaves the store. -/
theorem serve_of_fails (hs : before.store.Sound σ) (hm : r.model ∈ σ.models)
    (hdue : Due r now before request point input) (hfails : r.Fails point input) :
    (∃ e, (r.serve now request before).result = .error e) ∧
      (r.serve now request before).state.store = before.store := by
  obtain ⟨e, hrun⟩ := exists_runHook_of_fails hfails
  have h := serves_of_sound hs hm now request
  generalize (r.serve now request before).result = result,
    (r.serve now request before).state.store = after at h ⊢
  cases h with
  | listed => nomatch hdue
  | shown => nomatch hdue
  | failed request e => exact ⟨⟨e, rfl⟩, rfl⟩
  | lostCreation c | created c =>
    obtain ⟨answer, hanswer⟩ := c.exists_runHook hdue
    cases hrun.symm.trans hanswer
  | lostChange c | changed c =>
    obtain ⟨answer, hanswer⟩ := c.exists_runHook hdue
    cases hrun.symm.trans hanswer
  | destroyed c => nomatch hdue

theorem passes_breakingAt {other : HookPoint} (hne : other ≠ point) :
    (r.breakingAt point).Passes other input record ↔ r.Passes other input record := by
  rw [← runHook_eq_true_iff, ← runHook_eq_true_iff, breakingAt, runHook_mapHooks]
  intro hook
  rw [if_neg hne]

/-- Whether a hook is due at a point does not depend on what it does there. -/
theorem Due.breakingAt (h : Due r now before request point input) :
    Due (r.breakingAt point) now before request point input := by
  cases h with
  | beforeCreate hclean => exact .beforeCreate (r := r.breakingAt _) hclean
  | afterCreate hclean hpasses hflush =>
    have hne : HookPoint.beforeCreate ≠ .afterCreate := by decide
    exact .afterCreate (r := r.breakingAt _) hclean ((passes_breakingAt hne).2 hpasses) hflush
  | beforeUpdate hfind hclean => exact .beforeUpdate (r := r.breakingAt _) hfind hclean
  | afterUpdate hfind hclean hpasses hflush =>
    have hne : HookPoint.beforeUpdate ≠ .afterUpdate := by decide
    exact .afterUpdate (r := r.breakingAt _) hfind hclean ((passes_breakingAt hne).2 hpasses) hflush

/-- When the hook at a point were to fail, it would be called there all the same and the store would
stay as it was. So nothing is committed when it is called. -/
def Uncommitted (r : Resource) (now : Calendar.Moment) (before : State) (request : Request)
    (point : HookPoint) (input : HookInput) : Prop :=
  let out := (r.breakingAt point).serve now request before
  out.calls.filter (·.point = point) = r.callsAt point input ∧ (∃ e, out.result = .error e) ∧
    out.state.store = before.store

theorem uncommitted_of_due (hs : before.store.Sound σ) (hm : r.model ∈ σ.models)
    (hdue : Due r now before request point input) (hhook : (r.hook? point).isSome = true) :
    Uncommitted r now before request point input := by
  have hbreaks : (r.breakingAt point).Fails point input := by
    obtain ⟨hook, hhook⟩ := Option.isSome_iff_exists.1 hhook
    refine ⟨fun _ => .error (.failure ""), .failure "", ?_, rfl⟩
    rw [breakingAt, hook?_mapHooks, hhook, Option.map_some, if_pos rfl]
  have hcalls := (serve_calls (r.breakingAt point) now request before).once point input hdue.breakingAt
  have hmodel : (r.breakingAt point).model ∈ σ.models := hm
  refine ⟨?_, serve_of_fails hs hmodel hdue.breakingAt hbreaks⟩
  rw [hcalls, breakingAt, callsAt_mapHooks]

/-! ### A hook that cancels -/

theorem create_of_cancels (hdue : Due r now before (.write (.create payload)) .beforeCreate input)
    (hcancels : r.Cancels .beforeCreate input) :
    (r.create now payload before).Meets (fun _ _ _ => False)
      fun e state _ => e = .refused .cancelled ∧ state.store = before.store := by
  obtain ⟨left, hrun⟩ := exists_runHook_of_cancels hcancels
  cases hdue with
  | beforeCreate hclean =>
    refine Outcome.meets_within (.bind (.ofExcept ?_ ?_))
    · intro clean' hclean'
      rw [mapError_eq_ok_iff, hclean] at hclean'
      cases hclean'
      refine .bind (.callHook ?_ fun e herror => nomatch hrun.symm.trans herror)
      intro answer hanswer
      cases hrun.symm.trans hanswer
      exact .bind (.throw ⟨rfl, rfl⟩)
    · intro e he
      rw [hclean] at he
      cases he

theorem update_of_cancels
    (hdue : Due r now before (.write (.update address payload)) .beforeUpdate input)
    (hcancels : r.Cancels .beforeUpdate input) :
    (r.update now address payload before).Meets (fun _ _ _ => False)
      fun e state _ => e = .refused .cancelled ∧ state.store = before.store := by
  obtain ⟨left, hrun⟩ := exists_runHook_of_cancels hcancels
  cases hdue with
  | beforeUpdate hfind hclean =>
    refine Outcome.meets_within (.bind (.get (.bind (.ofExcept ?_ ?_))))
    · intro found' hfind'
      cases hfind.symm.trans hfind'
      refine .bind (.ofExcept ?_ ?_)
      · intro clean' hclean'
        rw [mapError_eq_ok_iff, hclean] at hclean'
        cases hclean'
        refine .bind (.callHook ?_ fun e herror => nomatch hrun.symm.trans herror)
        intro answer hanswer
        cases hrun.symm.trans hanswer
        exact .bind (.rollback (.bind (.throw ⟨rfl, rfl⟩)))
      · intro e he
        rw [hclean] at he
        cases he
    · intro e he
      cases hfind.symm.trans he

/-! ### What hooks behind a write answer -/

theorem callsAt_answering (answers : HookPoint → HookInput → Value) (point : HookPoint)
    (input : HookInput) : (r.answering answers).callsAt point input = r.callsAt point input :=
  callsAt_mapHooks r _ point input

theorem map_snd_runHook_answering (answers : HookPoint → HookInput → Value) :
    ((r.answering answers).runHook point input).map Prod.snd =
      (r.runHook point input).map Prod.snd := by
  unfold runHook
  rw [answering, hook?_mapHooks]
  cases r.hook? point with
  | none => rfl
  | some hook =>
    rw [Option.map_some]
    split
    · next heq => cases heq
    · next _ other heq =>
      obtain rfl := Option.some.inj heq
      by_cases hbehind : isBehind point = true
      · rw [if_pos hbehind]
        cases hook input <;> rfl
      · rw [if_neg hbehind]

/-- Only the record that a hook leaves is looked at where its answer is dropped. -/
theorem callHook_answering_bind {α : Type} (answers : HookPoint → HookInput → Value)
    (goOn : Record → Transaction α) :
    (callHook (r.answering answers) point now record >>= fun left => goOn left.2) =
      callHook r point now record >>= fun left => goOn left.2 := by
  have hlooks (x : Except HookError (Bool × Record)) :
      ((MonadExcept.ofExcept (x.mapError ServiceError.ofHook) : Transaction (Bool × Record)) >>=
        fun left => goOn left.2) =
      (MonadExcept.ofExcept ((x.map Prod.snd).mapError ServiceError.ofHook) >>= goOn) := by
    cases x <;> rfl
  simp only [callHook, bind_assoc, hlooks, map_snd_runHook_answering, callsAt_answering]

theorem settle_answering (answers : HookPoint → HookInput → Value) (row : Row) (known : Record) :
    (r.answering answers).settle point now row known = r.settle point now row known := by
  exact callHook_answering_bind answers fun changed => do
    let row ← flush fun s => s.update now r.model row known changed
    commit
    refresh r.model row (stamped r.model (Store.changes now r.model known changed) changed)

theorem callHook_answering_of_front (answers : HookPoint → HookInput → Value)
    (hfront : isBehind point = false) :
    callHook (r.answering answers) point now record = callHook r point now record := by
  have hsame (input : HookInput) :
      (r.answering answers).runHook point input = r.runHook point input := by
    refine runHook_mapHooks (fun hook => ?_) input
    rw [hfront]
    rfl
  simp only [callHook, hsame, callsAt_answering]

/-- What hooks behind a write answer has no influence on what comes of a request. -/
theorem serve_answering (r : Resource) (answers : HookPoint → HookInput → Value)
    (now : Calendar.Moment) (request : Request) (before : State) :
    (r.answering answers).serve now request before = r.serve now request before := by
  have hcreating (payload : Value) :
      (r.answering answers).creating now payload = r.creating now payload := by
    simp only [creating, callHook_answering_of_front answers (show isBehind .beforeCreate = false from rfl),
      settle_answering]
    rfl
  have hupdating (address payload : Value) :
      (r.answering answers).updating now address payload = r.updating now address payload := by
    simp only [updating, callHook_answering_of_front answers (show isBehind .beforeUpdate = false from rfl),
      settle_answering]
    rfl
  cases request with
  | index params requested => rfl
  | show_ address requested => rfl
  | write request =>
    cases request with
    | create payload => exact congrArg (fun t => (Session.within before t).map some) (hcreating payload)
    | update address payload =>
      exact congrArg (fun t => (Session.within before t).map some) (hupdating address payload)
    | destroy address => rfl

/-! ### One request -/

/-- A record has the key of a row: every part of it is set and names that of the row. A part that
numbers the rows can be set to what the store keeps as null, a float that is no number, beside the
number that the row gets. -/
def HasKeyOf (m : Model) (record : Record) (row : Row) : Prop :=
  ∀ c ∈ m.primaryKey, record.value c.field ≠ .null ∧
    (c.names (row.cell c.name) (record.value c.field) = true ∨
      m.rowNumber? = some c ∧ c.kept (record.value c.field) = .null)

/-- What is flushed when a hook behind a write is called: one row of the table was put among the
others, and the record has its key. -/
def Flushed (r : Resource) (before : Store) (input : HookInput) : Prop :=
  ∃ others row, Store.Placed r.model before input.store others row ∧
    HasKeyOf r.model input.record row

theorem flushed_of_due (hs : before.store.Sound σ) (hm : r.model ∈ σ.models)
    (hdue : Due r now before request point input) (hbehind : isBehind point = true) :
    Flushed r before.store input := by
  have hkeyed := σ.keyed _ hm
  have hcolumn {c : Column} (hc : c ∈ r.model.primaryKey) : r.model.column? c.field = some c :=
    Model.column?_of_mem hkeyed.fields (List.mem_filter.1 hc).1
  cases hdue with
  | beforeCreate _ => cases hbehind
  | beforeUpdate _ _ => cases hbehind
  | afterCreate hclean hpasses hflush =>
    refine ⟨_, _, Store.placed_of_insert hs hm hflush, fun c hc => ⟨?_, ?_⟩⟩
    · exact Store.key_of_insert hflush (hcolumn hc) (hkeyed.keys c hc)
    · exact (Store.names_inserted hkeyed hflush hc).imp_right fun h => ⟨h.1, h.2.1⟩
  | afterUpdate hfind hclean hpasses hflush =>
    have hcell (c : Column) (hc : c ∈ r.model.primaryKey) := key_of_find hfind hc
    have hnamed := isNamedBy_iff.1 (Store.isNamedBy_stamped hkeyed hcell hflush)
    have hplaced := Store.placed_of_update hs hm (mem_rows_of_find hfind) hflush
    refine ⟨_, _, hplaced, fun c hc => ⟨?_, .inl (hnamed c hc)⟩⟩
    refine key_of_stamped hkeyed hflush (hcolumn hc) (hkeyed.keys c hc) (hcell c hc) ?_
    rw [Record.value_ofRow (hcolumn hc)]
    exact Cell.load_ne_null (hcell c hc) (hkeyed.keys c hc).kind

/-- The protocol of hooks in one request. -/
structure Lifecycle (r : Resource) (now : Calendar.Moment) (before : State) (request : Request)
    (out : Outcome (Option (Entries Value))) : Prop where
  /-- The hooks that are due are called, each once, and no others. -/
  calls : CallsDue r now before request out.calls
  /-- In front of a write nothing of it is in the store. -/
  unwritten : ∀ point input, Due r now before request point input → isBehind point = false →
    input.store = before.store
  /-- Behind it the record is flushed, with its key. -/
  flushed : ∀ point input, Due r now before request point input → isBehind point = true →
    Flushed r before.store input
  /-- Nothing is committed yet when a hook is called. -/
  uncommitted : ∀ point input, Due r now before request point input →
    (r.hook? point).isSome = true → Uncommitted r now before request point input
  /-- A write that the hook in front cancels is answered with 422 and leaves the store. -/
  cancelled : ∀ point input, Due r now before request point input → isBehind point = false →
    r.Cancels point input → (∃ refusal : Refusal, out.result = .error (.refused refusal) ∧
      refusal.status = 422) ∧ out.state.store = before.store

theorem refused_of_meets {out : Outcome (Entries Value)} (h : out.Meets (fun _ _ _ => False)
      fun e state _ => e = .refused .cancelled ∧ state.store = before.store) :
    (∃ refusal : Refusal, (out.map some).result = .error (.refused refusal) ∧
      refusal.status = 422) ∧ (out.map some).state.store = before.store := by
  obtain ⟨result, state, calls⟩ := out
  cases result with
  | ok answer => exact h.elim
  | error e =>
    obtain ⟨rfl, hstore⟩ := h
    exact ⟨⟨.cancelled, rfl, rfl⟩, hstore⟩

theorem lifecycle_serve (hs : before.store.Sound σ) (hm : r.model ∈ σ.models)
    (now : Calendar.Moment) (request : Request) :
    Lifecycle r now before request (r.serve now request before) where
  calls := serve_calls r now request before
  unwritten point input hdue hfront := by
    cases hdue with
    | beforeCreate _ => rfl
    | beforeUpdate _ _ => rfl
    | afterCreate _ _ _ => cases hfront
    | afterUpdate _ _ _ _ => cases hfront
  flushed point input := flushed_of_due hs hm
  uncommitted point input := uncommitted_of_due hs hm
  cancelled point input hdue hfront hcancels := by
    cases hdue with
    | beforeCreate hclean =>
      exact refused_of_meets (create_of_cancels (.beforeCreate hclean) hcancels)
    | beforeUpdate hfind hclean =>
      exact refused_of_meets (update_of_cancels (.beforeUpdate hfind hclean) hcancels)
    | afterCreate _ _ _ => cases hfront
    | afterUpdate _ _ _ _ => cases hfront

/-! ### Sequences of requests -/

/-- A request to a resource, at a time. -/
structure Asked where
  resource : Resource
  now : Calendar.Moment
  request : Request

/-- A request with the state in which it was done and what came of it. -/
structure Step where
  asked : Asked
  before : State
  outcome : Outcome (Option (Entries Value))

/-- The steps of a sequence of requests, each done in a session of its own on the state that the one
before it left. -/
def steps : State → List Asked → List Step
  | _, [] => []
  | state, asked :: rest =>
    let out := asked.resource.serve asked.now asked.request state
    ⟨asked, state, out⟩ :: steps out.state rest

/-- The same request to the resource whose hooks behind writes answer something else. -/
def Asked.answering (asked : Asked) (answers : Resource → HookPoint → HookInput → Value) : Asked :=
  { asked with resource := asked.resource.answering (answers asked.resource) }

theorem reachable_serve {state : State} (hstate : Reachable σ state) (hm : r.model ∈ σ.models)
    (now : Calendar.Moment) (request : Request) :
    Reachable σ (r.serve now request state).state := by
  cases request with
  | index params requested => exact hstate
  | show_ address requested => exact hstate
  | write request => exact hstate.perform hm now request

/-- What hooks behind writes answer has no influence on what comes of a sequence, by induction over
it. -/
theorem outcomes_answering (answers : Resource → HookPoint → HookInput → Value) (state : State)
    (asked : List Asked) : (steps state (asked.map (·.answering answers))).map Step.outcome =
      (steps state asked).map Step.outcome := by
  induction asked generalizing state with
  | nil => rfl
  | cons first rest ih =>
    have hserve := serve_answering first.resource (answers first.resource) first.now first.request state
    simp only [List.map_cons, steps, Asked.answering, hserve]
    exact congrArg _ (ih _)

/-- In every sequence of requests to resources with whatever hooks, each request follows the
protocol of hooks, and what the hooks behind writes answer changes nothing that comes of any of
them. -/
theorem hooks_follow_lifecycle {state : State} {asked : List Asked} (hstate : Reachable σ state)
    (hmodels : ∀ a ∈ asked, a.resource.model ∈ σ.models) :
    (∀ step ∈ steps state asked, Lifecycle step.asked.resource step.asked.now step.before
      step.asked.request step.outcome) ∧
      ∀ answers, (steps state (asked.map (·.answering answers))).map Step.outcome =
        (steps state asked).map Step.outcome := by
  refine ⟨?_, fun answers => outcomes_answering answers state asked⟩
  induction asked generalizing state with
  | nil => exact fun step hstep => absurd hstep List.not_mem_nil
  | cons first rest ih =>
    obtain ⟨hm, hrest⟩ := List.forall_mem_cons.1 hmodels
    intro step hstep
    rcases List.mem_cons.1 hstep with rfl | hlater
    · exact lifecycle_serve (sound_of_reachable hstate) hm first.now first.request
    · exact ih (reachable_serve hstate hm first.now first.request) hrest step hlater

/-- Posts of which none is created as published. The other hooks answer zero and false, and the last
one fails. -/
def vettedPosts : Registration where
  __ := Posts.registration
  hooks := [
    (.text "before_create", some fun input =>
      .ok (if (input.record.value "status") matches .text "published" then .bool false else .null,
        input.record)),
    (.text "after_create", some fun input => .ok (.bool false, input.record)),
    (.text "before_update", some fun input => .ok (.int 0, input.record)),
    (.text "after_update", some fun _ => .error (.failure "too late"))]

/-- A published post is not created, a draft is, its change fails behind the flush, and the posts
are listed. -/
def vetting (r : Resource) : List Asked := [
  ⟨r, noon, .write (.create publishedPost)⟩,
  ⟨r, noon, .write (.create (.map [("title", .text "First"), ("content", .text "Hello")]))⟩,
  ⟨r, noon, .write (.update (.text "1") (.map [("title", .text "Second")]))⟩,
  ⟨r, noon, .index [] none⟩]

theorem lifecycle_of_vetting : ∃ registry r, Registry.register [] vettedPosts = .ok (registry, r) ∧
    r.model.Keyed ∧ ((steps ⟨Store.empty [Posts.model], 0⟩ (vetting r)).map fun step =>
      step.outcome.calls.map HookCall.point) =
        [[.beforeCreate], [.beforeCreate, .afterCreate], [.beforeUpdate, .afterUpdate], []] ∧
      ∀ step ∈ steps ⟨Store.empty [Posts.model], 0⟩ (vetting r), Lifecycle step.asked.resource
        step.asked.now step.before step.asked.request step.outcome := by
  have hfacts : (Registry.register [] vettedPosts).toOption.map (fun p =>
      (steps ⟨Store.empty [Posts.model], 0⟩ (vetting p.2)).map fun step =>
        step.outcome.calls.map HookCall.point) =
        some [[.beforeCreate], [.beforeCreate, .afterCreate], [.beforeUpdate, .afterUpdate], []] := by
    decide +kernel
  obtain ⟨⟨registry, r⟩, hregister, hcalls⟩ := exists_of_toOption_map hfacts
  have hmodel : r.model = Posts.model := Registry.model_of_register hregister
  have hm := mem_postsSchema_of_register hregister rfl
  have hstate : Reachable postsSchema ⟨Store.empty [Posts.model], 0⟩ := .empty 0
  refine ⟨registry, r, hregister, hmodel ▸ keyed_posts, hcalls,
    (hooks_follow_lifecycle hstate ?_).1⟩
  intro a ha
  have hresource : a.resource = r := by
    simp only [vetting, List.mem_cons, List.not_mem_nil, or_false] at ha
    rcases ha with rfl | rfl | rfl | rfl <;> rfl
  rw [hresource]
  exact hm

end TableApi.Resource
