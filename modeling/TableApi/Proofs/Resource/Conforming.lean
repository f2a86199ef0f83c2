import TableApi.Proofs.Resource.Commit
import TableApi.Proofs.Resource.Payload
import TableApi.Proofs.Store.Conforming

/-! Requests that keep the rows of regular models in form. A payload of plain values is cleaned to a
record that suits the model, and hooks that leave such records so lead every write to a row that
belongs to the model. So over all requests the tables hold nothing else. -/

namespace TableApi

/-- A payload without byte strings, which no plain data has. -/
def Value.HasNoBytes (payload : Value) : Prop :=
  ∀ entries, payload = .map entries → ∀ entry ∈ entries, ∀ bs, entry.2 ≠ .bytes bs

namespace Resource

variable {r : Resource} {m : Model} {c : Column}

/-! ### Payloads -/

/-- A cleaned value suits its column. -/
theorem suits_cleanValue {v x : Value} (h : cleanValue c v = .ok x) (hv : ∀ bs, v ≠ .bytes bs) :
    x.Suits c.kind := by
  unfold cleanValue at h
  split at h
  · split at h
    · exact Except.ok.inj h ▸ Value.suits_null c.kind
    · cases h
  · split at h
    · cases h
    · next coerced hcoerced =>
      split at h
      · next haccepts =>
        cases h
        refine fun hkind => Or.inr ⟨haccepts, ?_⟩
        rintro bs rfl
        generalize c.kind = kind at *
        cases kind with
        | text =>
          -- A column of texts takes the value as it comes.
          have hsame : v = .bytes bs := by
            cases v <;> cases hcoerced
            rfl
          exact hv bs hsame
        | integer | boolean | date | moment | uuid => cases haccepts
        | float | numeric | json | raw => cases hkind
      · cases h

/-- A cleaned record suits its model. -/
theorem suits_cleanAll (hm : m.Regular) {entries : Entries Value} {clean : Record}
    (h : cleanAll m entries = .ok clean) (hbytes : ∀ entry ∈ entries, ∀ bs, entry.2 ≠ .bytes bs) :
    clean.Suits m := by
  induction entries generalizing clean with
  | nil =>
    cases h
    exact fun c _ v hv => absurd hv List.not_mem_nil
  | cons entry rest ih =>
    obtain ⟨field, v⟩ := entry
    obtain ⟨d, x, others, hd, hx, hothers, rfl⟩ := cleanAll_cons_eq_ok h
    obtain ⟨hfirst, hrest⟩ := List.forall_mem_cons.1 hbytes
    intro c hc w hw
    rcases List.mem_cons.1 hw with hnew | hold
    · obtain ⟨hfield, rfl⟩ := Prod.mk.inj hnew
      have hdfield : d.field = field := Model.field_of_column? hd
      obtain rfl := hm.eq_of_field (List.mem_of_find?_eq_some hd) hc (hdfield.trans hfield.symm)
      exact suits_cleanValue hx hfirst
    · exact ih hothers hrest c hc w hold

theorem suits_sanitize (hm : r.model.Regular) {payload : Value} {isUpdate : Bool} {clean : Record}
    (h : r.sanitize payload isUpdate = .ok clean) (hbytes : payload.HasNoBytes) :
    clean.Suits r.model := by
  obtain ⟨entries, rfl, -, hclean⟩ := of_sanitize h
  exact suits_cleanAll hm hclean (hbytes entries rfl)

/-! ### Requests -/

/-- Hooks that leave records which suit the model so. -/
def HooksKeep (r : Resource) : Prop := ∀ point input goesOn record,
  r.runHook point input = .ok (goesOn, record) → input.record.Suits r.model → record.Suits r.model

theorem hooksKeep_of_nil (h : r.hooks = []) : r.HooksKeep := by
  intro point input goesOn record hrun hrecord
  rw [runHook, hook?, h, List.lookup_nil] at hrun
  cases hrun
  exact hrecord

section Accounts

variable {now : Calendar.Moment} {payload address : Value} {before : State} {after : Store}

theorem Creation.belongs (a : Creation r now payload before after) (hm : r.model.Regular)
    (hhooks : r.HooksKeep) (hbytes : payload.HasNoBytes) : a.row.Belongs r.model := by
  have hclean := suits_sanitize hm a.sanitized hbytes
  have hrecord := hhooks _ _ _ _ a.passed hclean
  have hadded := Store.belongs_of_insert hm hrecord a.inserted
  have hchanged := hhooks _ _ _ _ a.followed (Store.suits_inserted hm hrecord hadded)
  exact Store.belongs_of_update hm hadded hchanged a.updated

theorem suits_stamped (hm : m.Regular) {before record : Record} (hrecord : record.Suits m) :
    (stamped m (Store.changes now m before record) record).Suits m := by
  have hfold : ∀ written : List (Column × Value), ∀ acc : Record,
      (∀ p ∈ written, p.1 ∈ m.columns ∧ p.2.Suits p.1.kind) → acc.Suits m →
        Record.Suits m (written.foldl (fun acc p => Entries.put p.1.field p.2 acc) acc) := by
    intro written
    induction written with
    | nil => exact fun acc _ hacc => hacc
    | cons p rest ih =>
      intro acc hwritten hacc
      obtain ⟨⟨hd, hv⟩, hrest⟩ := List.forall_mem_cons.1 hwritten
      refine ih _ hrest (hacc.put fun c hc hfield => ?_)
      obtain rfl := hm.eq_of_field hc hd hfield
      exact hv
  refine hfold _ _ (fun p hp => Store.suits_changes hm hrecord hp) ?_
  exact Record.suits_map hm fun c hc => hrecord.value hc

theorem Change.belongs {store : Store} (a : Change r now address payload store after)
    (hm : r.model.Regular) (hhooks : r.HooksKeep) (hbytes : payload.HasNoBytes)
    (hfound : a.found.Belongs r.model) : a.row.Belongs r.model := by
  have hclean := suits_sanitize hm a.sanitized hbytes
  have hgiven : Record.Suits r.model (Entries.putAll (Record.ofRow r.model a.found) a.clean) :=
    (Record.suits_ofRow hm hfound).putAll hclean
  have hrecord := hhooks _ _ _ _ a.passed hgiven
  have hflushed := Store.belongs_of_update hm hfound hrecord a.written
  have hchanged := hhooks _ _ _ _ a.followed (suits_stamped hm hrecord)
  exact Store.belongs_of_update hm hflushed hchanged a.updated

end Accounts

/-- A request whose payload has no byte strings. -/
def WriteRequest.HasNoBytes : WriteRequest → Prop
  | .create payload | .update _ payload => payload.HasNoBytes
  | .destroy _ => True

variable {σ : Schema} {state : State}

/-- One request keeps a store conforming. -/
theorem conforms_perform (hs : state.store.Sound σ) (hm : r.model ∈ σ.models)
    (hregular : r.model.Regular) (hhooks : r.HooksKeep) (hstore : state.store.Conforms)
    (now : Calendar.Moment) {request : WriteRequest} (hbytes : request.HasNoBytes) :
    (r.perform now request state).state.store.Conforms := by
  refine holds_perform (P := fun m row => row.Belongs m) hs hm hstore ?_ ?_
  · rintro payload after rfl a
    exact a.belongs hregular hhooks hbytes
  · rintro address payload after rfl a hfound
    exact a.belongs hregular hhooks hbytes hfound

/-! ### Conforming states -/

/-- The states of a service all of whose writes suit its tables: records that suit their models are
put into them, and requests without byte strings are done to resources whose hooks leave such
records so. -/
inductive Conforming (σ : Schema) : State → Prop where
  | empty (drawn : Nat) : Conforming σ ⟨Store.empty σ.models, drawn⟩
  | insert {state : State} {supply : Supply} {m : Model} {record : Record} {store : Store}
      {row : Row} (h : Conforming σ state) (hm : m ∈ σ.models) (hrecord : record.Suits m)
      (hinsert : state.store.insert supply m record = .ok (store, row)) (drawn : Nat) :
      Conforming σ ⟨store, drawn⟩
  | perform {state : State} {r : Resource} (h : Conforming σ state) (hm : r.model ∈ σ.models)
      (hhooks : r.HooksKeep) (now : Calendar.Moment) {request : WriteRequest}
      (hbytes : request.HasNoBytes) : Conforming σ (r.perform now request state).state

theorem reachable_of_conforming (h : Conforming σ state) : Reachable σ state := by
  induction h with
  | empty drawn => exact .empty drawn
  | insert _ hm _ hinsert drawn ih => exact .insert ih hm hinsert drawn
  | perform _ hm _ now _ ih => exact .perform ih hm now _

/-- In every such state all rows belong to their models, by induction over the way to it. -/
theorem conforms_of_conforming (hσ : ∀ m ∈ σ.models, m.Regular) (h : Conforming σ state) :
    state.store.Conforms := by
  induction h with
  | empty drawn => exact Store.holds_empty (P := fun m row => row.Belongs m) σ.models
  | insert h hm hrecord hinsert drawn ih =>
    have hs := sound_of_reachable (reachable_of_conforming h)
    exact Store.Holds.placed (P := fun m row => row.Belongs m) ih hs hm
      (Store.placed_of_insert hs hm hinsert) (fun _ h => h)
      (Store.belongs_of_insert (hσ _ hm) hrecord hinsert)
  | perform h hm hhooks now hbytes ih =>
    exact conforms_perform (sound_of_reachable (reachable_of_conforming h)) hm (hσ _ hm) hhooks ih
      now hbytes

end Resource

end TableApi
