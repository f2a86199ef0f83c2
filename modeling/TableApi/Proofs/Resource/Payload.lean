import TableApi.Proofs.Resource.Registered
import TableApi.Resource.Payload

/-! What an accepted payload is: an object whose fields are all permitted, each with a value that is
cleaned on its own. -/

namespace TableApi.Resource

def namedFields : Value → List String
  | .map entries => Entries.keys entries
  | _ => []

variable {r : Resource} {m : Model}

theorem cleanAll_cons_eq_ok {field : String} {v : Value} {rest : Entries Value} {clean : Record}
    (h : cleanAll m ((field, v) :: rest) = .ok clean) :
    ∃ c x others, m.column? field = some c ∧ cleanValue c v = .ok x ∧
      cleanAll m rest = .ok others ∧ clean = (field, x) :: others := by
  rw [cleanAll] at h
  split at h
  · cases h
  · next c hc =>
    obtain ⟨x, hx, h⟩ := bind_eq_ok_iff.1 h
    obtain ⟨others, hothers, h⟩ := bind_eq_ok_iff.1 h
    exact ⟨c, x, others, hc, hx, hothers, (Except.ok.inj h).symm⟩

theorem keys_of_cleanAll {entries : Entries Value} {clean : Record}
    (h : cleanAll m entries = .ok clean) : Entries.keys clean = Entries.keys entries := by
  induction entries generalizing clean with
  | nil =>
    cases h
    rfl
  | cons entry rest ih =>
    obtain ⟨c, x, others, -, -, hothers, rfl⟩ := cleanAll_cons_eq_ok h
    simpa [Entries.keys] using ih hothers

/-- A cleaned record has the values of the payload, each cleaned for its column. -/
theorem get?_cleanAll {entries : Entries Value} {clean : Record}
    (h : cleanAll m entries = .ok clean) (field : String) :
    Entries.get? entries field = none ∧ Entries.get? clean field = none ∨
      ∃ c v x, m.column? field = some c ∧ Entries.get? entries field = some v ∧
        cleanValue c v = .ok x ∧ Entries.get? clean field = some x := by
  induction entries generalizing clean with
  | nil =>
    cases h
    exact .inl ⟨rfl, rfl⟩
  | cons entry rest ih =>
    obtain ⟨key, v⟩ := entry
    obtain ⟨c, x, others, hc, hx, hothers, rfl⟩ := cleanAll_cons_eq_ok h
    rw [Entries.get?_cons, Entries.get?_cons]
    by_cases hkey : key = field
    · rw [if_pos hkey, if_pos hkey, ← hkey]
      exact .inr ⟨c, v, x, hc, rfl, hx, rfl⟩
    · rw [if_neg hkey, if_neg hkey]
      exact ih hothers

/-- Every entry of a cleaned record is a value that was cleaned for its column. -/
theorem exists_of_mem_cleanAll {entries : Entries Value} {clean : Record}
    (h : cleanAll m entries = .ok clean) {field : String} {x : Value} (hx : (field, x) ∈ clean) :
    ∃ c v, m.column? field = some c ∧ cleanValue c v = .ok x := by
  induction entries generalizing clean with
  | nil =>
    cases h
    cases hx
  | cons entry rest ih =>
    obtain ⟨key, v⟩ := entry
    obtain ⟨c, y, others, hc, hy, hothers, rfl⟩ := cleanAll_cons_eq_ok h
    rcases List.mem_cons.1 hx with hnew | hold
    · obtain ⟨rfl, rfl⟩ := Prod.mk.inj hnew
      exact ⟨c, v, hc, hy⟩
    · exact ih hothers hold

/-- A cleaned value is null or accepted by its column. -/
theorem accepts_of_cleanValue {c : Column} {v x : Value} (h : cleanValue c v = .ok x) :
    x = .null ∨ Coercion.accepts c.kind x = true := by
  unfold cleanValue at h
  split at h
  · split at h
    · exact Or.inl (Except.ok.inj h).symm
    · cases h
  · split at h
    · cases h
    · split at h
      · next haccepts =>
        cases h
        exact Or.inr haccepts
      · cases h

theorem cleanValue_text {c : Column} (hc : c.kind = .text) (s : String) :
    cleanValue c (.text s) = .ok (.text s) := by
  unfold cleanValue
  rw [hc]
  rfl

/-- An accepted payload is an object of permitted fields whose values are all cleaned. -/
theorem of_sanitize {payload : Value} {isUpdate : Bool} {clean : Record}
    (h : r.sanitize payload isUpdate = .ok clean) :
    ∃ entries, payload = .map entries ∧ (∀ field ∈ Entries.keys entries, field ∈ r.permitted) ∧
      cleanAll r.model entries = .ok clean := by
  unfold sanitize at h
  split at h
  · next entries =>
    simp only at h
    split at h
    · next hknown =>
      have hpermitted : ∀ field ∈ Entries.keys entries, field ∈ r.permitted := by
        have hnone := List.filter_eq_nil_iff.1 (Registry.sortedNames_isEmpty_iff.1 hknown)
        simpa using hnone
      obtain ⟨cleaned, hcleaned, h⟩ := bind_eq_ok_iff.1 h
      refine ⟨entries, rfl, hpermitted, ?_⟩
      rw [hcleaned]
      split at h
      · split at h
        · cases h
        · exact h
      · split at h
        · exact h
        · cases h
    · cases h
  · cases h

/-- The payload of a new record names every field that may not be left out. -/
theorem named_of_sanitize {payload : Value} {clean : Record}
    (h : r.sanitize payload false = .ok clean) {field : String} (hfield : field ∈ r.permitted)
    {c : Column} (hc : r.model.column? field = some c) (hneeded : c.mayBeOmitted = false) :
    field ∈ namedFields payload := by
  unfold sanitize at h
  split at h
  · next entries =>
    simp only at h
    split at h
    · obtain ⟨cleaned, -, h⟩ := bind_eq_ok_iff.1 h
      rw [if_neg Bool.false_ne_true] at h
      split at h
      · next hmissing =>
        have hall := List.filter_eq_nil_iff.1 (Registry.sortedNames_isEmpty_iff.1 hmissing)
        have hhas : Entries.has entries field = true := by simpa [hc, hneeded] using hall field hfield
        by_contra hnone
        rw [Entries.has, Entries.get?_eq_none_iff.2 hnone] at hhas
        cases hhas
      · cases h
    · cases h
  · cases h

theorem namedFields_subset_of_sanitize {payload : Value} {isUpdate : Bool} {clean : Record}
    (h : r.sanitize payload isUpdate = .ok clean) : ∀ field ∈ namedFields payload,
      field ∈ r.permitted := by
  obtain ⟨entries, rfl, hpermitted, -⟩ := of_sanitize h
  exact hpermitted

theorem keys_of_sanitize {payload : Value} {isUpdate : Bool} {clean : Record}
    (h : r.sanitize payload isUpdate = .ok clean) :
    Entries.keys clean = namedFields payload := by
  obtain ⟨entries, rfl, -, hclean⟩ := of_sanitize h
  exact keys_of_cleanAll hclean

end TableApi.Resource
