import TableApi.Proofs.Text.Commas
import TableApi.Resource.Answer

/-! Requests for some fields of a record. An action offers the fields of its list, or all of them
where it has none, and the text of a request names fields. An answer has the fields that are offered
and named, in the order of the model, with the values that it has without the text. So a text takes
fields from an answer and never adds one. -/

namespace TableApi.Resource

open Text

variable {r : Resource} {action : Action} {requested : Option String} {record : Record}
  {field : String}

/-- A field that an action offers: one of its list, and any field where it has no list. -/
def Offers (r : Resource) (action : Action) (field : String) : Prop :=
  ∀ fields, r.fieldsFor action = some fields → field ∈ fields

/-- A field that a request asks for: one that its text lists between commas, and any field where
there is no text or a blank one. -/
def AsksFor (requested : Option String) (field : String) : Prop :=
  ∀ s, requested = some s → strip s ≠ "" → ∃ names, Lists s names ∧ field ∈ names

/-! ### Tests -/

theorem offers_iff : r.Offers action field ↔
    (r.fieldsFor action).all (fun fields => fields.contains field) = true := by
  unfold Offers
  cases r.fieldsFor action <;> simp

theorem asksFor_iff : AsksFor requested field ↔
    (requestedFields? requested).all (fun names => names.contains field) = true := by
  unfold AsksFor requestedFields?
  cases requested with
  | none => simp
  | some s => by_cases hblank : strip s = "" <;> simp [hblank, lists_iff]

instance (r : Resource) (action : Action) : DecidablePred (r.Offers action) :=
  fun _ => decidable_of_iff' _ offers_iff

instance (requested : Option String) : DecidablePred (AsksFor requested) :=
  fun _ => decidable_of_iff' _ asksFor_iff

theorem shownFields?_all_iff : (r.shownFields? action requested).all
    (fun fields => fields.contains field) = true ↔
      r.Offers action field ∧ AsksFor requested field := by
  rw [offers_iff, asksFor_iff]
  unfold shownFields?
  cases requestedFields? requested with
  | none => simp
  | some names => cases r.fieldsFor action <;> simp [and_comm]

/-! ### Answers -/

theorem selectFields_eq_filter (fields? : Option (List String)) (answer : Entries Value) :
    selectFields fields? answer =
      answer.filter fun entry => fields?.all fun fields => fields.contains entry.1 := by
  cases fields? with
  | none => exact (List.filter_eq_self.2 fun _ _ => rfl).symm
  | some fields => rfl

theorem answer_eq_filter : r.answer action requested record =
    (plainFields r.model record).filter fun entry =>
      decide (r.Offers action entry.1 ∧ AsksFor requested entry.1) := by
  rw [answer, selectFields_eq_filter]
  refine List.filter_congr fun entry _ => ?_
  rw [Bool.eq_iff_iff, shownFields?_all_iff, decide_eq_true_iff]

theorem asksFor_none (field : String) : AsksFor none field := nofun

theorem answer_eq_filter_unasked : r.answer action requested record =
    (r.answer action none record).filter fun entry => decide (AsksFor requested entry.1) := by
  rw [answer_eq_filter, answer_eq_filter, List.filter_filter]
  refine List.filter_congr fun entry _ => ?_
  rw [Bool.eq_iff_iff, Bool.and_eq_true, decide_eq_true_iff, decide_eq_true_iff, decide_eq_true_iff]
  exact ⟨fun h => ⟨h.2, h.1, asksFor_none _⟩, fun h => ⟨h.2.1, h.1⟩⟩

theorem keys_plainFields (m : Model) (record : Record) :
    Entries.keys (plainFields m record) = m.fields := by
  rw [Entries.keys, plainFields, List.map_map]
  exact List.map_id _

theorem keys_filter (p : String → Bool) (answer : Entries Value) :
    Entries.keys (answer.filter fun entry => p entry.1) = (Entries.keys answer).filter p := by
  rw [Entries.keys, Entries.keys, List.filter_map]
  rfl

theorem keys_answer : Entries.keys (r.answer action requested record) =
    r.model.fields.filter fun field => decide (r.Offers action field ∧ AsksFor requested field) := by
  rw [answer_eq_filter, keys_filter fun field =>
    decide (r.Offers action field ∧ AsksFor requested field), keys_plainFields]

/-- What a request for some fields of a record gets to see. -/
structure Narrows (r : Resource) (action : Action) (requested : Option String) (record : Record) :
    Prop where
  /-- The fields of the answer, in the order of the model. -/
  keys : Entries.keys (r.answer action requested record) =
    r.model.fields.filter fun field => decide (r.Offers action field ∧ AsksFor requested field)
  /-- Of the answer without a text there are the fields that are asked for, with their values. -/
  entries : ∀ entry, entry ∈ r.answer action requested record ↔
    entry ∈ r.answer action none record ∧ AsksFor requested entry.1
  /-- Nothing is added, repeated or put elsewhere. -/
  sublist : (r.answer action requested record).Sublist (r.answer action none record)

/-- For every resource, every action and every record, a text takes from an answer the fields that it
does not list, and changes nothing else in it. -/
theorem answer_narrows (r : Resource) (action : Action) (requested : Option String)
    (record : Record) : r.Narrows action requested record where
  keys := keys_answer
  entries entry := by
    rw [answer_eq_filter_unasked, List.mem_filter, decide_eq_true_iff]
  sublist := by
    rw [answer_eq_filter_unasked]
    exact List.filter_sublist

/-- Commas alone are no blank text, and list no field. -/
example : ¬ AsksFor (some " , ") "id" ∧ AsksFor (some "  ") "id" ∧
    AsksFor (some "title,, id ,id") "id" := by decide +kernel

end TableApi.Resource
