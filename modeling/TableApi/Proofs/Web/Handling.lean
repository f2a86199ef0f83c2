import TableApi.Web.App

/-! How a request is handled. A reply is sent when its value has a form in strict JSON, which is so
when all parts of the value have one; a request that is no question of an origin gets the finished
response of what it asks for. -/

namespace TableApi.Web

/-! ### Strict JSON -/

theorem areCompliant_iff {items : List Value} :
    areCompliant items = true ↔ ∀ v ∈ items, isCompliant v = true := by
  induction items with
  | nil => simp [areCompliant]
  | cons v rest ih => simp [areCompliant, ih]

theorem entriesCompliant_iff {entries : Entries Value} :
    entriesCompliant entries = true ↔ ∀ entry ∈ entries, isCompliant entry.2 = true := by
  induction entries with
  | nil => simp [entriesCompliant]
  | cons entry rest ih =>
    obtain ⟨key, v⟩ := entry
    simp [entriesCompliant, ih]

/-- What is selected of a row has a form in strict JSON when all its cells have one. -/
theorem isCompliant_selectFields {m : Model} {row : Row}
    (h : ∀ c ∈ m.columns, isCompliant ((row.cell c.name).load c.kind).plain = true)
    (fields? : Option (List String)) : isCompliant
      (.map (Resource.selectFields fields? (Resource.plainFields m (Record.ofRow m row)))) = true := by
  have hplain : ∀ entry ∈ Resource.plainFields m (Record.ofRow m row),
      isCompliant entry.2 = true := by
    intro entry hentry
    obtain ⟨field, hfield, rfl⟩ := List.mem_map.1 hentry
    obtain ⟨c, hc⟩ := Model.exists_column?_of_mem hfield
    rw [Record.value_ofRow hc]
    exact h c (List.mem_of_find?_eq_some hc)
  rw [isCompliant, entriesCompliant_iff]
  unfold Resource.selectFields
  split
  · exact hplain
  · exact fun entry hentry => hplain entry (List.mem_filter.1 hentry).1

theorem reply_of_isCompliant {v : Value} (h : isCompliant v = true) (status : Nat) :
    reply status v = .ok (.json status v) := if_pos h

/-! ### Requests -/

theorem place?_listPath (r : Resource) (rest : Registry) :
    place? (r :: rest) (listPath r.name) = some (.list r) := by
  simp [place?, placeIn?, isPath]

/-- Below it are the places of its records. -/
theorem place?_recordPath (r : Resource) (rest : Registry) {address : String} (hne : address ≠ "")
    (hslash : '/' ∉ address.toList) :
    place? (r :: rest) (listPath r.name ++ "/" ++ address) = some (.item r address) := by
  have hlist : isPath (listPath r.name) (listPath r.name ++ "/" ++ address) = false := by
    rw [isPath, Bool.or_eq_false_iff, beq_eq_false_iff_ne, beq_eq_false_iff_ne]
    constructor <;> intro heq <;> simpa [String.toList_append] using congrArg String.toList heq
  have haddress : address? r.name (listPath r.name ++ "/" ++ address) = some address := by
    simp [address?, String.toList_append, hne, hslash]
  simp [place?, placeIn?, hlist, haddress]

variable {app : App} {now : Calendar.Moment} {request : Request} {state : State}

theorem preflight?_eq_none {origins : List String} (h : request.method ≠ "OPTIONS") :
    preflight? origins request = none := by
  unfold preflight?
  split
  · rw [if_neg h]
  · rfl

theorem handle_of_dispatch (fresh : String) (hmethod : request.method ≠ "OPTIONS")
    {response : Response} {after : State} {calls : List HookCall}
    (h : app.dispatch now request state = ⟨.ok response, after, calls⟩) :
    app.handle now fresh request state = ⟨finish request fresh
      (response.withHeaders (sharingHeaders app.settings.origins request)), none, after, calls⟩ := by
  simp only [App.handle, preflight?_eq_none hmethod, h]

/-! ### Success -/

/-- What is answered with success is in its body; a refusal has a status of its own. -/
theorem exists_of_replyTo {result : Except ServiceError (Entries Value)} {response : Response}
    (h : replyTo (fun entries => reply 200 (.map entries)) result = .ok response)
    (hstatus : response.status = 200) :
    ∃ answer, result = .ok answer ∧ response.body = .json (.map answer) := by
  unfold replyTo at h
  split at h
  · next answer =>
    dsimp only [reply] at h
    split at h
    · cases h
      exact ⟨answer, rfl, rfl⟩
    · cases h
  · next refusal =>
    cases h
    cases refusal <;> cases hstatus
  · cases h

/-- A request for reading that is answered with success gets what its route replies. -/
theorem exists_of_handle {fresh : String} (hmethod : request.method = "GET")
    (h : (app.handle now fresh request state).response.status = 200) :
    ∃ response, (app.dispatch now request state).reply = .ok response ∧ response.status = 200 ∧
      (app.handle now fresh request state).response.body = response.body := by
  have hnone : preflight? app.settings.origins request = none :=
    preflight?_eq_none (by rw [hmethod]; decide)
  unfold App.handle at h ⊢
  simp only [hnone] at h ⊢
  cases hreply : (app.dispatch now request state).reply with
  | ok response =>
    rw [hreply] at h
    exact ⟨response, rfl, h, rfl⟩
  | error failure =>
    rw [hreply] at h
    cases h

theorem dispatch_eq_follow (place : Place) (route : Route)
    (hplace : place? app.registry (percentDecode request.path) = some place)
    (hroute : place.route? request.method = some route) :
    app.dispatch now request state = app.follow now request state route := by
  unfold App.dispatch
  simp only [hplace, hroute]

end TableApi.Web
