import TableApi.Json.Reader
import TableApi.Proofs.Number.Double
import TableApi.Proofs.Resource.Admissible
import TableApi.Proofs.Resource.Findable

/-! When coercion fails. It gives back what it was given, or a value of the type of the column, for
all but two sorts of values: an infinite number in a column of integers, and in a column of floats
an integer from the middle between the largest finite number and the next power of two on. The
check of a payload answers in the same measure: it accepts the payload or refuses it as a bad
request, unless its first value that does not fit its column is such a number. -/

namespace TableApi

open Number

namespace Coercion

/-- The numbers without a counterpart in the other kind of numbers, with the errors that they are
met with. -/
inductive Beyond : ColumnKind → Value → CoercionError → Prop where
  | infinite (negative : Bool) : Beyond .integer (.float (.infinite negative)) .infinityToInteger
  | wide {n : Int} (h : twoTo 1024 - twoTo 970 ≤ n.natAbs) : Beyond .float (.int n) .integerToFloat

variable {kind : ColumnKind} {v x : Value} {e : CoercionError}

theorem not_beyond_null : ¬ Beyond kind .null e := by
  intro h
  cases h

theorem toInteger?_eq_error_iff : toInteger? v = .error e ↔ Beyond .integer v e := by
  constructor
  · intro h
    unfold toInteger? at h
    split at h
    · cases h
    · cases h
    · cases h
      exact .infinite _
    · cases h
    · cases h
  · rintro ⟨negative⟩
    rfl

theorem widen_eq_error_iff {n : Int} : widen n = .error e ↔ Beyond .float (.int n) e := by
  unfold widen
  constructor
  · intro h
    cases hn : Double.ofInt? n with
    | none =>
      rw [hn] at h
      cases h
      exact .wide (Double.ofInt?_eq_none_iff.1 hn)
    | some y =>
      rw [hn] at h
      cases h
  · rintro ⟨h⟩
    rw [Double.ofInt?_eq_none_iff.2 (by assumption)]
    rfl

theorem toFloat?_eq_error_iff : toFloat? v = .error e ↔ Beyond .float v e := by
  cases v with
  | int n => exact widen_eq_error_iff
  | _ => exact iff_of_false (fun h => nomatch h) (fun h => nomatch h)

theorem convert?_eq_error_iff : convert? kind v = .error e ↔ Beyond kind v e := by
  cases kind with
  | integer => exact toInteger?_eq_error_iff
  | float => exact toFloat?_eq_error_iff
  | _ => exact iff_of_false (fun h => nomatch h) (fun h => nomatch h)

/-- Coercion fails exactly at the numbers beyond the other kind. -/
theorem coerce_eq_error_iff : coerce kind v = .error e ↔ Beyond kind v e := by
  cases hnull : v.isNull with
  | true =>
    rw [Value.isNull_iff.1 hnull]
    exact iff_of_false (fun h => nomatch h) not_beyond_null
  | false =>
    rw [coerce_of_ne_null kind hnull, ← convert?_eq_error_iff]
    cases convert? kind v <;> simp [Except.map]

theorem Settled.isOf (h : Settled kind x) : x.IsOf kind := by
  cases h <;> constructor

theorem eq_or_isOf_of_coerce (h : coerce kind v = .ok x) : x = v ∨ x.IsOf kind :=
  (coerce_cases h).imp_right fun hconvert => (settled_of_convert? hconvert).isOf

structure Answers (kind : ColumnKind) (v : Value) : Prop where
  fails : ∀ e, coerce kind v = .error e ↔ Beyond kind v e
  returns : (∀ e, ¬ Beyond kind v e) → ∃ x, coerce kind v = .ok x ∧ (x = v ∨ x.IsOf kind)

theorem answers (kind : ColumnKind) (v : Value) : Answers kind v := by
  refine ⟨fun e => coerce_eq_error_iff, fun hnone => ?_⟩
  cases hcoerce : coerce kind v with
  | ok x => exact ⟨x, rfl, eq_or_isOf_of_coerce hcoerce⟩
  | error e => exact absurd (coerce_eq_error_iff.1 hcoerce) (hnone e)

end Coercion

namespace Resource

open Coercion

variable {r : Resource} {m : Model} {c : Column} {v : Value} {entries : Entries Value}
  {isUpdate : Bool} {failure : CoercionError}

/-- A value for the column: null where it may be null, and otherwise one whose coercion is of the
type of a typed column. -/
structure Suits (c : Column) (v : Value) : Prop where
  nullable : v = .null → c.nullable = true
  typed : v ≠ .null → c.kind.isTyped = true → ∃ x, coerce c.kind v = .ok x ∧ x.IsOf c.kind

theorem exists_cleanValue_iff_suits : (∃ x, cleanValue c v = .ok x) ↔ Suits c v :=
  exists_cleanValue_iff.trans ⟨fun h => ⟨h.1, h.2⟩, fun h => ⟨h.nullable, h.typed⟩⟩

theorem cleanValue_eq_coercion_iff :
    cleanValue c v = .error (.coercion failure) ↔ Beyond c.kind v failure := by
  rw [← coerce_eq_error_iff]
  by_cases hnull : v = .null
  · rw [hnull, cleanValue_null]
    refine iff_of_false (fun h => ?_) (fun h => nomatch h)
    split at h <;> cases h
  · rw [cleanValue_of_ne_null c hnull]
    cases coerce c.kind v with
    | error e => simp
    | ok coerced =>
      refine iff_of_false (fun h => ?_) (fun h => nomatch h)
      dsimp only at h
      split at h <;> cases h

theorem exists_cleanEntry_iff {entry : String × Value} : (∃ cleaned, cleanEntry m entry = .ok cleaned)
    ↔ ∃ c, m.column? entry.1 = some c ∧ Suits c entry.2 := by
  simp only [cleanEntry_eq_ok_iff, ← exists_cleanValue_iff_suits]
  constructor
  · rintro ⟨⟨field, x⟩, -, c, hc, hx⟩
    exact ⟨c, hc, x, hx⟩
  · rintro ⟨c, hc, x, hx⟩
    exact ⟨(entry.1, x), rfl, c, hc, hx⟩

theorem cleanEntry_eq_coercion_iff {entry : String × Value} :
    cleanEntry m entry = .error (.coercion failure) ↔
      ∃ c, m.column? entry.1 = some c ∧ Beyond c.kind entry.2 failure := by
  simp only [← cleanValue_eq_coercion_iff]
  unfold cleanEntry
  cases m.column? entry.1 with
  | none => simp
  | some c => cases hclean : cleanValue c entry.2 <;> simp [hclean, Except.map]

/-- The check of the entries comes to a number beyond its column: all fields are permitted, and the
values in front of the number suit their columns. -/
structure StopsAt (r : Resource) (entries : Entries Value) (failure : CoercionError) : Prop where
  permitted : ∀ field ∈ Entries.keys entries, field ∈ r.permitted
  number : ∃ before entry after, entries = before ++ entry :: after ∧
    (∀ other ∈ before, ∃ c, r.model.column? other.1 = some c ∧ Suits c other.2) ∧
    ∃ c, r.model.column? entry.1 = some c ∧ Beyond c.kind entry.2 failure

theorem cleanAll_eq_coercion_iff : cleanAll m entries = .error (.coercion failure) ↔
    ∃ before entry after, entries = before ++ entry :: after ∧
      (∀ other ∈ before, ∃ c, m.column? other.1 = some c ∧ Suits c other.2) ∧
      ∃ c, m.column? entry.1 = some c ∧ Beyond c.kind entry.2 failure := by
  simp only [cleanAll_eq_mapM, mapM_eq_error_iff, exists_cleanEntry_iff, cleanEntry_eq_coercion_iff]

theorem sanitize_map_eq_coercion_iff :
    r.sanitize (.map entries) isUpdate = .error (.coercion failure) ↔
      (∀ field ∈ Entries.keys entries, field ∈ r.permitted) ∧
        cleanAll r.model entries = .error (.coercion failure) := by
  rw [sanitize, ← unknownFields_isEmpty_iff]
  cases (sortedNames ((Entries.keys entries).filter fun k =>
    !r.permitted.contains k)).isEmpty with
  | false => simp
  | true =>
    simp only [if_true, bind_eq_error_iff, true_and, or_iff_left_iff_imp]
    rintro ⟨cleaned, -, h⟩
    split at h <;> split at h <;> cases h

theorem sanitize_eq_coercion_iff {payload : Value} :
    r.sanitize payload isUpdate = .error (.coercion failure) ↔
      ∃ entries, payload = .map entries ∧ r.StopsAt entries failure := by
  cases payload with
  | map entries =>
    rw [sanitize_map_eq_coercion_iff, cleanAll_eq_coercion_iff]
    constructor
    · rintro ⟨hpermitted, hnumber⟩
      exact ⟨entries, rfl, hpermitted, hnumber⟩
    · rintro ⟨others, hothers, h⟩
      cases hothers
      exact ⟨h.permitted, h.number⟩
  | _ => exact iff_of_false (fun h => nomatch h) (fun ⟨_, h, _⟩ => nomatch h)

/-- What the check makes of a payload. -/
structure Checks (r : Resource) (payload : Value) (isUpdate : Bool) : Prop where
  fails : ∀ failure, r.sanitize payload isUpdate = .error (.coercion failure) ↔
    ∃ entries, payload = .map entries ∧ r.StopsAt entries failure
  answers : (∀ entries failure, payload = .map entries → ¬ r.StopsAt entries failure) →
    (∃ clean, r.sanitize payload isUpdate = .ok clean) ∨
      ∃ e, r.sanitize payload isUpdate = .error e ∧ e.IsBadRequest

theorem checks (r : Resource) (payload : Value) (isUpdate : Bool) : r.Checks payload isUpdate := by
  refine ⟨fun failure => sanitize_eq_coercion_iff, fun hnone => ?_⟩
  cases hsanitize : r.sanitize payload isUpdate with
  | ok clean => exact .inl ⟨clean, rfl⟩
  | error e =>
    refine .inr ⟨e, rfl, ?_⟩
    rcases of_sanitize_eq_error hsanitize with hbad | ⟨-, -, -, -, -, -, failure, -, -, -, rfl⟩
    · exact hbad
    · obtain ⟨entries, hpayload, hstops⟩ := sanitize_eq_coercion_iff.1 hsanitize
      exact absurd hstops (hnone entries failure hpayload)

/-- Coercion fails at no numbers but those beyond the kind of the column, and the check of a payload
only where it comes to one; otherwise coercion returns the value or one of the type of the column,
and the check accepts the payload or refuses it as a bad request. -/
theorem answers_and_checks (kind : ColumnKind) (v : Value) (r : Resource) (payload : Value)
    (isUpdate : Bool) : Coercion.Answers kind v ∧ r.Checks payload isUpdate :=
  ⟨Coercion.answers kind v, checks r payload isUpdate⟩

/-- Whether the value is a game with an infinite score. -/
def isEndlessScore : Value → Bool
  | .map [(field, .float (.infinite false))] => field == "score"
  | _ => false

theorem eq_of_isEndlessScore (h : isEndlessScore v = true) :
    v = .map [("score", .float (.infinite false))] := by
  unfold isEndlessScore at h
  split at h
  · rw [beq_iff_eq.1 h]
  · cases h

/-- A score that is read as an infinite number is not refused as a bad request, and neither is an
infinite number converted or left as it is. -/
theorem endless_score_fails : ∃ registry r payload,
    Registry.register [] filteredGames = .ok (registry, r) ∧
      Json.read "\x7b\"score\": 1e999\x7d" = .ok payload ∧
      r.sanitize payload false = .error (.coercion .infinityToInteger) ∧
      ¬ (PayloadError.coercion .infinityToInteger).IsBadRequest ∧
      ∀ x, coerce .integer (.float (.infinite false)) ≠ .ok x := by
  have hread : (Json.read "\x7b\"score\": 1e999\x7d").toOption.map isEndlessScore = some true := by
    decide +kernel
  obtain ⟨payload, hread, hendless⟩ := exists_of_toOption_map hread
  obtain rfl := eq_of_isEndlessScore hendless
  have hfacts : (Registry.register [] filteredGames).toOption.map (fun p =>
      decide ("score" ∈ p.2.permitted ∧
        (p.2.model.column? "score").map Column.kind = some .integer)) = some true := by
    decide +kernel
  obtain ⟨⟨registry, r⟩, hregister, hfacts⟩ := exists_of_toOption_map hfacts
  obtain ⟨hpermitted, hkind⟩ := of_decide_eq_true hfacts
  obtain ⟨c, hc, hkind⟩ := Option.map_eq_some_iff.1 hkind
  have hstops : r.StopsAt [("score", .float (.infinite false))] .infinityToInteger := by
    refine ⟨fun field hfield => ?_, [], _, [], rfl, fun _ h => (nomatch h), c, hc, ?_⟩
    · rw [List.mem_singleton.1 hfield]
      exact hpermitted
    · rw [hkind]
      exact .infinite false
  exact ⟨registry, r, _, hregister, hread, sanitize_eq_coercion_iff.2 ⟨_, rfl, hstops⟩,
    fun ⟨_, h, _⟩ => (nomatch h), fun _ h => nomatch h⟩

end Resource

end TableApi
