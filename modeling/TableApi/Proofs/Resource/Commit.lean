import TableApi.Posts.Resource
import TableApi.Proofs.Resource.Registered
import TableApi.Proofs.Resource.Transaction
import TableApi.Proofs.Store.Writes
import TableApi.Resource.Service

/-! Requests commit as a whole or not at all. Whatever fails before the commit leaves the committed
rows as they were. Behind it one thing can fail: the row is read again by the key of its record, and
a key that is none, as a hook may set it, does not find the row that was committed. -/

namespace TableApi

namespace Resource

open Transaction

variable {σ : Schema} {r : Resource}

/-- The account of a created record: what the payload and the hook in front made of it, the row that
was added, what the hook behind made of that, and the one row that the table got. -/
structure Creation (r : Resource) (now : Calendar.Moment) (payload : Value) (before : State)
    (after : Store) where
  clean : Record
  record : Record
  between : Store
  added : Row
  answer : Bool
  changed : Record
  row : Row
  sanitized : r.sanitize payload false = .ok clean
  passed : r.runHook .beforeCreate ⟨now, before.store, clean⟩ = .ok (true, record)
  inserted : before.store.insert ⟨now, before.drawn⟩ r.model record = .ok (between, added)
  followed : r.runHook .afterCreate ⟨now, between,
    Store.inserted ⟨now, before.drawn⟩ r.model record added⟩ = .ok (answer, changed)
  updated : between.update now r.model added
    (Store.inserted ⟨now, before.drawn⟩ r.model record added) changed = .ok (after, row)
  placed : Store.Placed r.model before.store after (before.store.rows r.model) row

/-- The account of a changed record: the row that was found, what the payload and the hook in front
made of it, what the hook behind made of that, and the one row in its place. -/
structure Change (r : Resource) (now : Calendar.Moment) (address payload : Value) (before after : Store)
    where
  found : Row
  clean : Record
  record : Record
  between : Store
  flushed : Row
  answer : Bool
  changed : Record
  row : Row
  at_address : r.find before address = .ok found
  sanitized : r.sanitize payload true = .ok clean
  passed : r.runHook .beforeUpdate ⟨now, before,
    Entries.putAll (Record.ofRow r.model found) clean⟩ = .ok (true, record)
  written : before.update now r.model found (Record.ofRow r.model found) record =
    .ok (between, flushed)
  followed : r.runHook .afterUpdate ⟨now, between, stamped r.model
    (Store.changes now r.model (Record.ofRow r.model found) record) record⟩ = .ok (answer, changed)
  updated : between.update now r.model flushed (stamped r.model
    (Store.changes now r.model (Record.ofRow r.model found) record) record) changed =
      .ok (after, row)
  mem : found ∈ before.rows r.model
  placed : Store.Placed r.model before after (Store.without found (before.rows r.model)) row

/-- The record by which the row of a creation is read again. -/
def Creation.held {now : Calendar.Moment} {payload : Value} {before : State} {after : Store}
    (c : Creation r now payload before after) : Record :=
  let known := Store.inserted ⟨now, before.drawn⟩ r.model c.record c.added
  stamped r.model (Store.changes now r.model known c.changed) c.changed

def Creation.IsNamed {now : Calendar.Moment} {payload : Value} {before : State} {after : Store}
    (c : Creation r now payload before after) : Prop :=
  c.row.isNamedBy r.model c.held = true

/-- The record by which the row of a change is read again. -/
def Change.held {now : Calendar.Moment} {address payload : Value} {before after : Store}
    (c : Change r now address payload before after) : Record :=
  let known := stamped r.model
    (Store.changes now r.model (Record.ofRow r.model c.found) c.record) c.record
  stamped r.model (Store.changes now r.model known c.changed) c.changed

def Change.IsNamed {now : Calendar.Moment} {address payload : Value} {before after : Store}
    (c : Change r now address payload before after) : Prop :=
  c.row.isNamedBy r.model c.held = true

/-- The account of a destroyed record: the row that was found, without which the table is left. -/
structure Removal (r : Resource) (address : Value) (before after : Store) where
  row : Row
  at_address : r.find before address = .ok row
  deleted : before.delete r.model row = .ok after
  placed : Store.Placed r.model after before (after.rows r.model) row

theorem Removal.rows_eq {address : Value} {before after : Store} (c : Removal r address before after)
    (hs : before.Sound σ) (hm : r.model ∈ σ.models) :
    after.rows r.model = Store.without c.row (before.rows r.model) := by
  have hrows := congrArg (Store.rows · r.model) (Store.setRows_of_delete c.deleted)
  exact hrows.trans (hs.rows_setRows hm _)

theorem mem_rows_of_find {store : Store} {address : Value} {row : Row}
    (h : r.find store address = .ok row) : row ∈ store.rows r.model := by
  obtain ⟨key, -, h⟩ := bind_eq_ok_iff.1 h
  obtain ⟨found?, hfind, h⟩ := bind_eq_ok_iff.1 h
  cases found? with
  | none => cases h
  | some found =>
    cases h
    exact Store.mem_rows_of_find? (mapError_eq_ok_iff.1 hfind)

theorem isLost_ofPayload (e : PayloadError) : (ServiceError.ofPayload e).isLost = false := by
  cases e <;> rfl

theorem isLost_ofHook (e : HookError) : (ServiceError.ofHook e).isLost = false := by
  cases e <;> rfl

theorem isLost_of_find {store : Store} {address : Value} {e : ServiceError}
    (h : r.find store address = .error e) : e.isLost = false := by
  rcases bind_eq_error_iff.1 h with hkey | ⟨key, -, h⟩
  · obtain ⟨refusal, -, rfl⟩ := mapError_eq_error_iff.1 hkey
    rfl
  · rcases bind_eq_error_iff.1 h with hfind | ⟨found?, -, h⟩
    · obtain ⟨failure, -, rfl⟩ := mapError_eq_error_iff.1 hfind
      rfl
    · cases found? with
      | none => cases h; rfl
      | some found => cases h

/-- A row of a sound store is read again when the key of its record names it. -/
theorem refresh_ensures {row : Row} {known : Record} {s : Session} {good : Row → Session → Prop}
    {bad : ServiceError → Session → Prop} (hs : s.working.Sound σ) (hm : r.model ∈ σ.models)
    (hrow : row ∈ s.working.rows r.model)
    (hgood : row.isNamedBy r.model known = true → good row s)
    (hbad : row.isNamedBy r.model known = false → bad (.lost r.model.name) s) :
    (refresh r.model row known).Ensures s good bad := by
  have hnumber := Store.find?_number (hs.ascending hm) hrow
  refine .refresh (fun found hfind => ?_) fun hmissing => ?_
  · have hmatch := List.find?_some hfind
    simp only [Bool.and_eq_true, beq_iff_eq] at hmatch
    obtain rfl : found = row := Store.eq_of_number_eq (hs.ascending hm)
      (List.mem_of_find?_eq_some hfind) hrow hmatch.1
    exact hgood hmatch.2
  · refine hbad ?_
    simpa using List.find?_eq_none.1 hmissing row hrow

/-- What a settled row is: what the store makes of it by what the hook leaves, named or not by the
record that is known then. -/
def Settles (r : Resource) (point : HookPoint) (now : Calendar.Moment) (row : Row) (known : Record)
    (store after : Store) (settled : Row) (named : Bool) : Prop :=
  ∃ answer changed, r.runHook point ⟨now, store, known⟩ = .ok (answer, changed) ∧
    store.update now r.model row known changed = .ok (after, settled) ∧
    settled.isNamedBy r.model
      (stamped r.model (Store.changes now r.model known changed) changed) = named

/-- A row that is in its table is settled and committed, and it is lost behind the commit exactly
where the key of its record does not name it. -/
theorem settle_ensures {point : HookPoint} {now : Calendar.Moment} {row : Row} {known : Record}
    {s : Session} (hs : s.working.Sound σ) (hm : r.model ∈ σ.models)
    (hrow : row ∈ s.working.rows r.model) :
    (r.settle point now row known).Ensures s
      (fun settled s' => r.Settles point now row known s.working s'.committed settled true)
      (fun e s' => Outcome.Leaves s.committed (fun after => ∃ settled,
        r.Settles point now row known s.working after settled false) e s'.committed) := by
  refine .bind (.callHook ?_ fun e _ => .of_eq (isLost_ofHook e) rfl)
  rintro ⟨answer, changed⟩ hanswer
  refine .bind (.flush ?_ fun e _ => .of_eq rfl rfl)
  intro store next hupdate
  have hplaced := Store.placed_of_update hs hm hrow hupdate
  have hstore : store.Sound σ :=
    hplaced.sound hs hm (hs.ascending_without hm row) (hs.numbers_without hm row)
  refine .bind (.commit (refresh_ensures hstore hm (hplaced.mem hs hm) ?_ ?_))
  · exact fun hnamed => ⟨answer, changed, hanswer, hupdate, hnamed⟩
  · exact fun hlost => .of_lost rfl ⟨next, answer, changed, hanswer, hupdate, hlost⟩

/-- Creating adds one row and commits it, or commits nothing. -/
theorem creating_ensures {now : Calendar.Moment} {payload : Value} {s : Session}
    (hs : s.working.Sound σ) (hm : r.model ∈ σ.models) :
    (r.creating now payload).Ensures s
      (fun answer s' => ∃ c : Creation r now payload ⟨s.working, s.drawn⟩ s'.committed,
        answer = r.answerRow .write none c.row ∧ c.IsNamed)
      (fun e s' => Outcome.Leaves s.committed (fun after =>
        ∃ c : Creation r now payload ⟨s.working, s.drawn⟩ after, ¬ c.IsNamed) e s'.committed) := by
  refine .bind (.ofExcept ?_ fun e he => ?_)
  · intro clean hclean
    refine .bind (.callHook ?_ fun e _ => .of_eq (isLost_ofHook e) rfl)
    rintro ⟨goesOn, record⟩ hpassed
    cases goesOn with
    | false => exact .bind (.throw (.of_eq rfl rfl))
    | true =>
      refine .bind (.guarded (.bind (.draw ?_)) fun _ _ h => h)
      intro drawn
      refine .bind (.flush ?_ fun _ _ => .of_eq rfl rfl)
      intro between added hinsert
      have hadded := Store.placed_of_insert hs hm hinsert
      have hbetween : between.Sound σ :=
        hadded.sound hs hm (hs.ascending hm) (hs.numbers hm)
      have haccount {after : Store} {row : Row} {named : Bool} (h : r.Settles .afterCreate now added
          (Store.inserted ⟨now, s.drawn⟩ r.model record added) between after row named) :
          ∃ c : Creation r now payload ⟨s.working, s.drawn⟩ after, c.row = row ∧
            c.row.isNamedBy r.model c.held = named := by
        obtain ⟨answer, changed, hfollowed, hupdate, hnamed⟩ := h
        have hupdated := Store.placed_of_update hbetween hm (hadded.mem hs hm) hupdate
        exact ⟨⟨clean, record, between, added, answer, changed, row, mapError_eq_ok_iff.1 hclean,
          hpassed, hinsert, hfollowed, hupdate, hadded.trans hupdated hs hm⟩, rfl, hnamed⟩
      refine (settle_ensures hbetween hm (hadded.mem hs hm)).mono ?_ fun _ _ h => h.mono ?_
      · intro row s' h
        obtain ⟨c, rfl, hnamed⟩ := haccount h
        exact .pure ⟨c, rfl, hnamed⟩
      · rintro ⟨row, h⟩
        obtain ⟨c, -, hlost⟩ := haccount h
        exact ⟨c, by simp [Creation.IsNamed, hlost]⟩
  · obtain ⟨failure, -, rfl⟩ := mapError_eq_error_iff.1 he
    exact .of_eq (isLost_ofPayload failure) rfl

/-- Updating puts one row in the place of the found one and commits it, or commits nothing. -/
theorem updating_ensures {now : Calendar.Moment} {address payload : Value} {s : Session}
    (hs : s.working.Sound σ) (hm : r.model ∈ σ.models) :
    (r.updating now address payload).Ensures s
      (fun answer s' => ∃ c : Change r now address payload s.working s'.committed,
        answer = r.answerRow .write none c.row ∧ c.IsNamed)
      (fun e s' => Outcome.Leaves s.committed (fun after =>
        ∃ c : Change r now address payload s.working after, ¬ c.IsNamed) e s'.committed) := by
  refine .bind (.get (.bind (.ofExcept ?_ fun e he => .of_eq (isLost_of_find he) rfl)))
  intro found hfind
  refine .bind (.ofExcept ?_ fun e he => ?_)
  · intro clean hclean
    refine .bind (.callHook ?_ fun e _ => .of_eq (isLost_ofHook e) rfl)
    rintro ⟨goesOn, record⟩ hpassed
    have hfound := mem_rows_of_find hfind
    cases goesOn with
    | false => exact .bind (.rollback (.bind (.throw (.of_eq rfl rfl))))
    | true =>
      refine .bind (.guarded (.bind (.flush ?_ fun _ _ => .of_eq rfl rfl)) fun _ _ h => h)
      intro between flushed hwrite
      have hflushed := Store.placed_of_update hs hm hfound hwrite
      have hbetween : between.Sound σ := hflushed.sound hs hm (hs.ascending_without hm found)
        (hs.numbers_without hm found)
      have haccount {after : Store} {row : Row} {named : Bool} (h : r.Settles .afterUpdate now flushed
          (stamped r.model (Store.changes now r.model (Record.ofRow r.model found) record) record)
          between after row named) :
          ∃ c : Change r now address payload s.working after, c.row = row ∧
            c.row.isNamedBy r.model c.held = named := by
        obtain ⟨answer, changed, hfollowed, hupdate, hnamed⟩ := h
        have hupdated := Store.placed_of_update hbetween hm (hflushed.mem hs hm) hupdate
        exact ⟨⟨found, clean, record, between, flushed, answer, changed, row, hfind,
          mapError_eq_ok_iff.1 hclean, hpassed, hwrite, hfollowed, hupdate, hfound,
          hflushed.trans hupdated hs hm⟩, rfl, hnamed⟩
      refine (settle_ensures hbetween hm (hflushed.mem hs hm)).mono ?_ fun _ _ h => h.mono ?_
      · intro row s' h
        obtain ⟨c, rfl, hnamed⟩ := haccount h
        exact .pure ⟨c, rfl, hnamed⟩
      · rintro ⟨row, h⟩
        obtain ⟨c, -, hlost⟩ := haccount h
        exact ⟨c, by simp [Change.IsNamed, hlost]⟩
  · obtain ⟨failure, -, rfl⟩ := mapError_eq_error_iff.1 he
    exact .of_eq (isLost_ofPayload failure) rfl

/-- Destroying takes out one row and commits that, or commits nothing. -/
theorem destroying_ensures {address : Value} {s : Session} (hs : s.working.Sound σ)
    (hm : r.model ∈ σ.models) :
    (r.destroying address).Ensures s
      (fun _ s' => Nonempty (Removal r address s.working s'.committed))
      (fun e s' => Outcome.Leaves s.committed (fun _ => False) e s'.committed) := by
  refine .bind (.get (.bind (.ofExcept ?_ fun e he => .of_eq (isLost_of_find he) rfl)))
  intro row hfind
  refine .guarded (.bind (.flush ?_ fun _ _ => .of_eq rfl rfl)) fun _ _ h => h
  intro store u hdelete
  have hdeleted : s.working.delete r.model row = .ok store := by
    cases h : s.working.delete r.model row with
    | error e => simp [h, Except.map] at hdelete
    | ok after => simpa [h, Except.map] using hdelete
  exact .commit ⟨row, hfind, hdeleted,
    Store.placed_of_delete hs hm (mem_rows_of_find hfind) hdeleted⟩

/-! ### Requests -/

/-- The requests that write. -/
inductive WriteRequest where
  | create (payload : Value)
  | update (address payload : Value)
  | destroy (address : Value)

/-- Do what a request asks for, in a session of its own; destroying has no answer. -/
def perform (r : Resource) (now : Calendar.Moment) (request : WriteRequest) (state : State) :
    Outcome (Option (Entries Value)) :=
  match request with
  | .create payload => (r.create now payload state).map some
  | .update address payload => (r.update now address payload state).map some
  | .destroy address => (r.destroy address state).map fun _ => none

/-- What a request commits when it succeeds: its one row is added, replaced or taken out, and found
by its key. -/
def Commits (r : Resource) (now : Calendar.Moment) (request : WriteRequest) (before : State)
    (answer : Option (Entries Value)) (after : Store) : Prop :=
  match request with
  | .create payload => ∃ c : Creation r now payload before after,
      answer = some (r.answerRow .write none c.row) ∧ c.IsNamed
  | .update address payload => ∃ c : Change r now address payload before.store after,
      answer = some (r.answerRow .write none c.row) ∧ c.IsNamed
  | .destroy address => answer = none ∧ Nonempty (Removal r address before.store after)

/-- What a request has committed when its row is lost: the same, but the key of the record does not
name the row. -/
def Loses (r : Resource) (now : Calendar.Moment) (request : WriteRequest) (before : State)
    (after : Store) : Prop :=
  match request with
  | .create payload => ∃ c : Creation r now payload before after, ¬ c.IsNamed
  | .update address payload => ∃ c : Change r now address payload before.store after, ¬ c.IsNamed
  | .destroy _ => False

theorem create_of_sound {state : State} (hs : state.store.Sound σ) (hm : r.model ∈ σ.models)
    (now : Calendar.Moment) (payload : Value) :
    (r.create now payload state).WholeOrNothing state
      (fun answer after => ∃ c : Creation r now payload state after,
        answer = r.answerRow .write none c.row ∧ c.IsNamed)
      (r.Loses now (.create payload) state) :=
  Outcome.wholeOrNothing_within (creating_ensures hs hm)

theorem update_of_sound {state : State} (hs : state.store.Sound σ) (hm : r.model ∈ σ.models)
    (now : Calendar.Moment) (address payload : Value) :
    (r.update now address payload state).WholeOrNothing state
      (fun answer after => ∃ c : Change r now address payload state.store after,
        answer = r.answerRow .write none c.row ∧ c.IsNamed)
      (r.Loses now (.update address payload) state) :=
  Outcome.wholeOrNothing_within (updating_ensures hs hm)

theorem destroy_of_sound {state : State} (hs : state.store.Sound σ) (hm : r.model ∈ σ.models)
    (address : Value) : (r.destroy address state).WholeOrNothing state
      (fun _ after => Nonempty (Removal r address state.store after)) fun _ => False :=
  Outcome.wholeOrNothing_within (destroying_ensures hs hm)

/-- From a sound store a request commits as a whole or leaves the store as it was. -/
theorem perform_of_sound {state : State} (hs : state.store.Sound σ) (hm : r.model ∈ σ.models)
    (now : Calendar.Moment) (request : WriteRequest) :
    (r.perform now request state).WholeOrNothing state (r.Commits now request state)
      (r.Loses now request state) := by
  cases request with
  | create payload =>
    refine (create_of_sound hs hm now payload).map some ?_
    rintro answer store ⟨c, rfl, hnamed⟩
    exact ⟨c, rfl, hnamed⟩
  | update address payload =>
    refine (update_of_sound hs hm now address payload).map some ?_
    rintro answer store ⟨c, rfl, hnamed⟩
    exact ⟨c, rfl, hnamed⟩
  | destroy address =>
    exact (destroy_of_sound hs hm address).map _ fun _ store hremoval => ⟨rfl, hremoval⟩

/-- What may be in the store behind a request: its one row is added, replaced or taken out, or the
store is as it was. -/
inductive Becomes (r : Resource) (now : Calendar.Moment) (before : State) :
    WriteRequest → Store → Prop where
  | unchanged (request : WriteRequest) : Becomes r now before request before.store
  | created {payload : Value} {after : Store} (c : Creation r now payload before after) :
      Becomes r now before (.create payload) after
  | changed {address payload : Value} {after : Store}
      (c : Change r now address payload before.store after) :
      Becomes r now before (.update address payload) after
  | destroyed {address : Value} {after : Store} (c : Removal r address before.store after) :
      Becomes r now before (.destroy address) after

theorem becomes_perform {state : State} (hs : state.store.Sound σ) (hm : r.model ∈ σ.models)
    (now : Calendar.Moment) (request : WriteRequest) :
    r.Becomes now state request (r.perform now request state).state.store := by
  have h := perform_of_sound hs hm now request
  unfold Outcome.WholeOrNothing Outcome.Leaves at h
  split at h
  · cases request with
    | create payload => exact h.elim fun c _ => .created c
    | update address payload => exact h.elim fun c _ => .changed c
    | destroy address => exact h.2.elim .destroyed
  · split at h
    · cases request with
      | create payload => exact h.elim fun c _ => .created c
      | update address payload => exact h.elim fun c _ => .changed c
      | destroy address => exact h.elim
    · rw [h]
      exact .unchanged request

/-- A request that writes leaves a sound store, whether it succeeds or fails. -/
theorem sound_perform {state : State} (hs : state.store.Sound σ) (hm : r.model ∈ σ.models)
    (now : Calendar.Moment) (request : WriteRequest) :
    (r.perform now request state).state.store.Sound σ := by
  have h := becomes_perform hs hm now request
  generalize (r.perform now request state).state.store = after at h ⊢
  cases h with
  | unchanged => exact hs
  | created c => exact c.placed.sound hs hm (hs.ascending hm) (hs.numbers hm)
  | changed c => exact c.placed.sound hs hm (hs.ascending_without hm _) (hs.numbers_without hm _)
  | destroyed c => exact Store.sound_of_delete hs hm c.deleted

/-- A property of rows is kept in all tables when it is had by the row that a request creates, and
by the one that it puts in the place of another that has it. -/
theorem holds_perform {P : Model → Row → Prop} {state : State} (hs : state.store.Sound σ)
    (hm : r.model ∈ σ.models) (hstore : state.store.Holds P) {now : Calendar.Moment}
    {request : WriteRequest}
    (hcreated : ∀ payload after, request = .create payload →
      ∀ a : Creation r now payload state after, P r.model a.row)
    (hchanged : ∀ address payload after, request = .update address payload →
      ∀ a : Change r now address payload state.store after, P r.model a.found → P r.model a.row) :
    (r.perform now request state).state.store.Holds P := by
  have h := becomes_perform hs hm now request
  generalize (r.perform now request state).state.store = after at h ⊢
  cases h with
  | unchanged => exact hstore
  | created a => exact hstore.placed hs hm a.placed (fun _ h => h) (hcreated _ _ rfl a)
  | changed a =>
    refine hstore.placed hs hm a.placed (fun _ h => (List.mem_filter.1 h).1) ?_
    exact hchanged _ _ _ rfl a (hstore.rows hs hm _ a.mem)
  | destroyed a =>
    rw [Store.setRows_of_delete a.deleted]
    exact hstore.setRows hs hm fun row hrow => hstore.rows hs hm row (List.mem_filter.1 hrow).1

/-! ### Reachable states -/

/-- The states of a service with these models: its tables begin empty, records are put into them
and requests are done, whatever the resources and their hooks are. -/
inductive Reachable (σ : Schema) : State → Prop where
  | empty (drawn : Nat) : Reachable σ ⟨Store.empty σ.models, drawn⟩
  | insert {state : State} {supply : Supply} {m : Model} {record : Record} {store : Store}
      {row : Row} (h : Reachable σ state) (hm : m ∈ σ.models)
      (hinsert : state.store.insert supply m record = .ok (store, row)) (drawn : Nat) :
      Reachable σ ⟨store, drawn⟩
  | perform {state : State} {r : Resource} (h : Reachable σ state) (hm : r.model ∈ σ.models)
      (now : Calendar.Moment) (request : WriteRequest) :
      Reachable σ (r.perform now request state).state

/-- Every reachable store is sound, by induction over the way to it. -/
theorem sound_of_reachable {state : State} (h : Reachable σ state) : state.store.Sound σ := by
  induction h with
  | empty drawn => exact Store.sound_empty σ
  | insert _ hm hinsert drawn ih =>
    exact (Store.placed_of_insert ih hm hinsert).sound ih hm (ih.ascending hm) (ih.numbers hm)
  | perform _ hm now request ih => exact sound_perform ih hm now request

/-- A property that new rows have, and that rows keep when they are changed, holds of all rows in every
reachable state. -/
theorem holds_of_reachable {P : Model → Row → Prop}
    (hinsert : ∀ {s s' : Store} {supply m record row},
      s.insert supply m record = .ok (s', row) → P m row)
    (hupdate : ∀ {s s' : Store} {now m row next before after}, P m row →
      s.update now m row before after = .ok (s', next) → P m next)
    {state : State} (h : Reachable σ state) : state.store.Holds P := by
  induction h with
  | empty drawn => exact Store.holds_empty σ.models
  | insert h hm hadded drawn ih =>
    have hs := sound_of_reachable h
    exact ih.placed hs hm (Store.placed_of_insert hs hm hadded) (fun _ h => h) (hinsert hadded)
  | perform h hm now request ih =>
    refine holds_perform (sound_of_reachable h) hm ih (fun _ _ _ a => ?_) fun _ _ _ _ a hfound => ?_
    · exact hupdate (hinsert a.inserted) a.updated
    · exact hupdate (hupdate hfound a.written) a.updated

/-- What the empty store has and every write of a sound store keeps is had by every reachable
store. -/
theorem kept_of_reachable {P : Store → Prop} (hempty : P (Store.empty σ.models))
    (hinsert : ∀ {s s' : Store} {supply m record row}, s.Sound σ → m ∈ σ.models → P s →
      s.insert supply m record = .ok (s', row) → P s')
    (hupdate : ∀ {s s' : Store} {now m row next before after}, s.Sound σ → m ∈ σ.models →
      row ∈ s.rows m → P s → s.update now m row before after = .ok (s', next) → P s')
    (hdelete : ∀ {s s' : Store} {m row}, s.Sound σ → m ∈ σ.models → P s →
      s.delete m row = .ok s' → P s')
    {state : State} (h : Reachable σ state) : P state.store := by
  induction h with
  | empty drawn => exact hempty
  | insert h hm hadded drawn ih => exact hinsert (sound_of_reachable h) hm ih hadded
  | @perform state r h hm now request ih =>
    have hs := sound_of_reachable h
    have h := becomes_perform hs hm now request
    generalize (r.perform now request state).state.store = after at h ⊢
    cases h with
    | unchanged => exact ih
    | created a =>
      have hadded := Store.placed_of_insert hs hm a.inserted
      have hbetween := hadded.sound hs hm (hs.ascending hm) (hs.numbers hm)
      exact hupdate hbetween hm (hadded.mem hs hm) (hinsert hs hm ih a.inserted) a.updated
    | changed a =>
      have hflushed := Store.placed_of_update hs hm a.mem a.written
      have hbetween := hflushed.sound hs hm (hs.ascending_without hm a.found)
        (hs.numbers_without hm a.found)
      exact hupdate hbetween hm (hflushed.mem hs hm) (hupdate hs hm a.mem ih a.written) a.updated
    | destroyed a => exact hdelete hs hm ih a.deleted

/-- From every reachable state a request to create, update or destroy a record, of any resource with
any hooks, commits its one row as a whole or leaves all tables as they were. It leaves them where it
fails, except behind the commit, where its row is lost: that is where the key of the record that the
session holds does not name the row. -/
theorem perform_wholeOrNothing {state : State} (hstate : Reachable σ state)
    (hm : r.model ∈ σ.models) (now : Calendar.Moment) (request : WriteRequest) :
    (r.perform now request state).WholeOrNothing state (r.Commits now request state)
      (r.Loses now request state) :=
  perform_of_sound (sound_of_reachable hstate) hm now request

theorem keyed_posts : Posts.model.Keyed := Model.keyed_of_id (by decide) (by decide) rfl

def postsSchema : Schema := ⟨[Posts.model], by decide, by simpa using keyed_posts⟩

theorem mem_postsSchema_of_register {registry registry' : Registry} {g : Registration}
    (h : Registry.register registry g = .ok (registry', r)) (hmodel : g.model = Posts.model) :
    r.model ∈ postsSchema.models := by
  rw [Registry.model_of_register h, hmodel]
  exact List.mem_singleton.2 rfl

def noon : Calendar.Moment := ⟨⟨2026, 1, 1, by decide⟩, ⟨12, 0, 0, 0, by decide⟩, none⟩

/-- A post whose time of publication is left to the hook. -/
def publishedPost : Value :=
  .map [("title", .text "First"), ("content", .text "Hello"), ("status", .text "published")]

/-- A published post that is created when there is none is committed as the one row of the posts. -/
theorem create_first_post : ∃ registry r row,
    Registry.register [] Posts.registration = .ok (registry, r) ∧
      (r.perform noon (.create publishedPost) ⟨Store.empty [Posts.model], 0⟩).state.store.rows
        Posts.model = [row] := by
  have hcreated : (Registry.register [] Posts.registration).toOption.map (fun p =>
      (p.2.perform noon (.create publishedPost)
        ⟨Store.empty [Posts.model], 0⟩).result.toOption.isSome) = some true := by
    decide +kernel
  obtain ⟨⟨registry, r⟩, hregister, hanswered⟩ := exists_of_toOption_map hcreated
  have hmodel : r.model = Posts.model := Registry.model_of_register hregister
  have hm := mem_postsSchema_of_register hregister rfl
  have hstate : Reachable postsSchema ⟨Store.empty [Posts.model], 0⟩ := .empty 0
  have hwhole := perform_wholeOrNothing hstate hm noon (.create publishedPost)
  obtain ⟨answer, hanswer⟩ := exists_of_isSome_toOption hanswered
  obtain ⟨c, -, -⟩ := hwhole.of_ok hanswer
  have hrows := c.placed.rows (sound_of_reachable hstate) hm
  rw [hmodel] at hrows
  exact ⟨registry, r, c.row, hregister, hrows⟩

/-- Posts of which a hook changes a field when they are created. -/
def postsSetting (field : String) (v : Value) : Registration where
  __ := Posts.registration
  hooks := [(.text "before_create", some fun input =>
    .ok (.null, Entries.put field v input.record))]

/-- A published post that is created when there is none. -/
def published (r : Resource) : Outcome (Option (Entries Value)) :=
  r.perform noon (.create publishedPost) ⟨Store.empty [Posts.model], 0⟩

/-- A creation can fail and leave its row, when a hook sets the number of a post to a float that is
none, and one that succeeds need not commit what a hook set: for null the default is committed. -/
theorem create_lost_post :
    (∃ registry r e, Registry.register [] (postsSetting "id" (.float .nan)) = .ok (registry, r) ∧
      r.published.result = .error e ∧
      r.published.state.store.rows Posts.model ≠ (Store.empty [Posts.model]).rows Posts.model) ∧
    ∃ registry r answer, Registry.register [] (postsSetting "status" .null) = .ok (registry, r) ∧
      r.published.result = .ok answer ∧
      (r.published.state.store.rows Posts.model).map (·.cell "status") = [.text "draft"] := by
  have hlost : (Registry.register [] (postsSetting "id" (.float .nan))).toOption.map (fun p =>
      p.2.published.result.toOption.isNone &&
        !(p.2.published.state.store.rows Posts.model).isEmpty) = some true := by
    decide +kernel
  have hdraft : (Registry.register [] (postsSetting "status" .null)).toOption.map (fun p =>
      p.2.published.result.toOption.isSome &&
        (p.2.published.state.store.rows Posts.model).map (·.cell "status") == [.text "draft"]) =
      some true := by
    decide +kernel
  constructor
  · obtain ⟨⟨registry, r⟩, hregister, hfails⟩ := exists_of_toOption_map hlost
    simp only [Bool.and_eq_true, Option.isNone_iff_eq_none, Bool.not_eq_true',
      List.isEmpty_eq_false_iff] at hfails
    obtain ⟨e, he⟩ := exists_of_toOption_eq_none hfails.1
    exact ⟨registry, r, e, hregister, he, hfails.2⟩
  · obtain ⟨⟨registry, r⟩, hregister, hset⟩ := exists_of_toOption_map hdraft
    rw [Bool.and_eq_true, beq_iff_eq] at hset
    obtain ⟨answer, hanswer⟩ := exists_of_isSome_toOption hset.1
    exact ⟨registry, r, answer, hregister, hanswer, hset.2⟩

end Resource

end TableApi
