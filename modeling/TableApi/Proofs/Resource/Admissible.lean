import TableApi.Posts.Resource
import TableApi.Proofs.Coercion
import TableApi.Proofs.Resource.Payload
import TableApi.Proofs.Resource.Registrations
import TableApi.Proofs.Value.Plain

/-! Which payloads are accepted. The check goes through a payload in a fixed sequence and stops at
the first thing that it refuses; what it accepts can be told without a sequence: permitted fields
only, null only where a column allows it, values of the type of a typed column, and every field that
is required. The fields may come in any order. Whatever else is given is refused as a bad request,
unless a number has no counterpart in the kind of its column. -/

namespace TableApi

/-- Whether values are checked to be of the type of their column. In columns of texts, JSON and raw
values they are not. -/
def ColumnKind.isTyped : ColumnKind → Bool
  | .text | .json | .raw => false
  | _ => true

/-- The values of the type of a typed column. A truth value is an integer too, and a moment a
date. -/
inductive Value.IsOf : ColumnKind → Value → Prop where
  | int (n : Int) : IsOf .integer (.int n)
  | truth (b : Bool) : IsOf .integer (.bool b)
  | float (x : Double) : IsOf .float (.float x)
  | decimal (d : Decimal) : IsOf .numeric (.decimal d)
  | bool (b : Bool) : IsOf .boolean (.bool b)
  | date (d : Calendar.Date) : IsOf .date (.date d)
  | day (m : Calendar.Moment) : IsOf .date (.moment m)
  | moment (m : Calendar.Moment) : IsOf .moment (.moment m)
  | uuid (u : Uuid) : IsOf .uuid (.uuid u)

def PayloadError.IsBadRequest (e : PayloadError) : Prop :=
  ∃ refusal, e = .refused refusal ∧ refusal.status = 400

namespace Coercion

theorem accepts_iff {kind : ColumnKind} {v : Value} :
    accepts kind v = true ↔ (kind.isTyped = true → v.IsOf kind) := by
  constructor
  · intro h htyped
    unfold accepts at h
    split at h
    case h_10 | h_11 | h_12 => cases htyped
    case h_13 => cases h
    all_goals constructor
  · intro h
    by_cases htyped : kind.isTyped = true
    · cases h htyped <;> rfl
    · cases kind <;> first | rfl | exact absurd rfl htyped

theorem coerce_untyped {kind : ColumnKind} (h : kind.isTyped = false) (v : Value) :
    coerce kind v = .ok v := by
  cases kind with
  | text | json | raw => cases v <;> rfl
  | _ => cases h

end Coercion

namespace Resource

variable {r : Resource} {m : Model} {c : Column} {v x : Value} {entries : Entries Value}
  {clean : Record} {isUpdate : Bool}

/-! ### Values -/

theorem cleanValue_null (c : Column) : cleanValue c .null =
    if c.nullable then .ok .null else .error (.refused (.nullField c.field)) := rfl

theorem cleanValue_of_ne_null (c : Column) (h : v ≠ .null) : cleanValue c v =
    match coerce c.kind v with
    | .error e => .error (.coercion e)
    | .ok coerced =>
      if Coercion.accepts c.kind coerced then .ok coerced
      else .error (.refused (.invalidField c.field)) := by
  cases v with
  | null => exact absurd rfl h
  | _ => rfl

/-- A value is cleaned by its coercion, which has to be of the type of the column; null is kept
where the column allows it. -/
theorem cleanValue_eq_ok_iff : cleanValue c v = .ok x ↔
    v = .null ∧ c.nullable = true ∧ x = .null ∨
      v ≠ .null ∧ coerce c.kind v = .ok x ∧ (c.kind.isTyped = true → x.IsOf c.kind) := by
  by_cases hnull : v = .null
  · rw [hnull, cleanValue_null]
    cases c.nullable with
    | false => simp
    | true => simp [@eq_comm _ x]
  · rw [cleanValue_of_ne_null c hnull, ← Coercion.accepts_iff]
    cases coerce c.kind v with
    | error e => simp [hnull]
    | ok coerced =>
      simp only [hnull, false_and, false_or, ne_eq, not_false_eq_true, true_and, Except.ok.injEq]
      by_cases haccepts : Coercion.accepts c.kind coerced = true
      · rw [if_pos haccepts, Except.ok.injEq]
        exact ⟨fun h => ⟨h, h ▸ haccepts⟩, fun h => h.1⟩
      · rw [if_neg haccepts]
        exact ⟨fun h => (nomatch h), fun h => absurd (h.1 ▸ h.2) haccepts⟩

theorem exists_cleanValue_iff : (∃ x, cleanValue c v = .ok x) ↔
    (v = .null → c.nullable = true) ∧ (v ≠ .null → c.kind.isTyped = true →
      ∃ x, coerce c.kind v = .ok x ∧ x.IsOf c.kind) := by
  simp only [cleanValue_eq_ok_iff]
  by_cases hnull : v = .null
  · simp [hnull]
  · simp only [hnull, false_and, false_or, ne_eq, not_false_eq_true, true_and, false_imp_iff,
      true_imp_iff]
    by_cases htyped : c.kind.isTyped = true
    · simp [htyped]
    · have hkind : c.kind.isTyped = false := by simpa using htyped
      simp [hkind, Coercion.coerce_untyped hkind]

/-- A value that is not cleaned is refused as a bad request or has no counterpart in its column. -/
theorem of_cleanValue_eq_error {e : PayloadError} (h : cleanValue c v = .error e) :
    e.IsBadRequest ∨ ∃ failure, coerce c.kind v = .error failure ∧ e = .coercion failure := by
  by_cases hnull : v = .null
  · rw [hnull, cleanValue_null] at h
    split at h
    · cases h
    · cases h
      exact .inl ⟨_, rfl, rfl⟩
  · rw [cleanValue_of_ne_null c hnull] at h
    split at h
    · next failure hfailure =>
      cases h
      exact .inr ⟨failure, hfailure, rfl⟩
    · split at h
      · cases h
      · cases h
        exact .inl ⟨_, rfl, rfl⟩

/-! ### Entries -/

/-- The entry with its value cleaned for its column. -/
def cleanEntry (m : Model) (entry : String × Value) : Except PayloadError (String × Value) :=
  match m.column? entry.1 with
  | none => .error (.refused (.unknownFields [entry.1]))
  | some c => (cleanValue c entry.2).map fun cleaned => (entry.1, cleaned)

theorem cleanAll_eq_mapM (m : Model) (entries : Entries Value) :
    cleanAll m entries = entries.mapM (cleanEntry m) := by
  induction entries with
  | nil => rfl
  | cons entry rest ih =>
    rw [List.mapM_cons, ← ih, cleanAll, cleanEntry]
    cases m.column? entry.1 with
    | none => rfl
    | some c =>
      simp only
      cases cleanValue c entry.2 <;> rfl

theorem cleanEntry_eq_ok_iff {entry cleaned : String × Value} :
    cleanEntry m entry = .ok cleaned ↔ cleaned.1 = entry.1 ∧
      ∃ c, m.column? entry.1 = some c ∧ cleanValue c entry.2 = .ok cleaned.2 := by
  obtain ⟨field, x⟩ := cleaned
  unfold cleanEntry
  cases m.column? entry.1 with
  | none => simp
  | some c =>
    cases hclean : cleanValue c entry.2 with
    | error e => simp [hclean, Except.map]
    | ok y => simp [hclean, Except.map, @eq_comm _ field]

/-- The cleaned entry has its key, and null or the coercion of its value. -/
def Cleans (m : Model) (entry cleaned : String × Value) : Prop :=
  cleaned.1 = entry.1 ∧ (entry.2 = .null ∧ cleaned.2 = .null ∨
    entry.2 ≠ .null ∧ ∃ c, m.column? entry.1 = some c ∧ coerce c.kind entry.2 = .ok cleaned.2)

theorem cleans_of_cleanEntry {entry cleaned : String × Value}
    (h : cleanEntry m entry = .ok cleaned) : Cleans m entry cleaned := by
  obtain ⟨hkey, c, hc, hvalue⟩ := cleanEntry_eq_ok_iff.1 h
  rcases cleanValue_eq_ok_iff.1 hvalue with ⟨hnull, -, hclean⟩ | ⟨hnull, hcoerce, -⟩
  · exact ⟨hkey, .inl ⟨hnull, hclean⟩⟩
  · exact ⟨hkey, .inr ⟨hnull, c, hc, hcoerce⟩⟩

/-! ### Payloads -/

/-- A payload that may be accepted, in whatever order its fields come. -/
structure Admissible (r : Resource) (entries : Entries Value) (isUpdate : Bool) : Prop where
  permitted : ∀ field ∈ Entries.keys entries, field ∈ r.permitted
  nullable : ∀ field c, (field, .null) ∈ entries → r.model.column? field = some c →
    c.nullable = true
  typed : ∀ field v c, (field, v) ∈ entries → v ≠ .null → r.model.column? field = some c →
    c.kind.isTyped = true → ∃ x, coerce c.kind v = .ok x ∧ x.IsOf c.kind
  required : isUpdate = false → ∀ field ∈ r.permitted, ∀ c, r.model.column? field = some c →
    c.nullable = false → c.default? = none → c.serverDefault? = none →
    field ∈ Entries.keys entries
  given : isUpdate = true → entries ≠ []

theorem Admissible.perm {others : Entries Value} (h : r.Admissible entries isUpdate)
    (hperm : entries.Perm others) : r.Admissible others isUpdate where
  permitted field hfield := h.permitted field ((hperm.map Prod.fst).mem_iff.2 hfield)
  nullable field c hmem := h.nullable field c (hperm.mem_iff.2 hmem)
  typed field v c hmem := h.typed field v c (hperm.mem_iff.2 hmem)
  required hcreate field hfield c hc hnull hdefault hserver :=
    (hperm.map Prod.fst).mem_iff.1 (h.required hcreate field hfield c hc hnull hdefault hserver)
  given hupdate hnil := h.given hupdate ((hnil ▸ hperm).eq_nil)

/-- The error is that of coercing one of the values, which are reached only when all fields are
permitted. -/
structure FailsToCoerce (r : Resource) (entries : Entries Value) (e : PayloadError) : Prop where
  permitted : ∀ field ∈ Entries.keys entries, field ∈ r.permitted
  value : ∃ field v c failure, (field, v) ∈ entries ∧ r.model.column? field = some c ∧
    coerce c.kind v = .error failure ∧ e = .coercion failure

theorem missingFields_isEmpty_iff : (r.missingFields entries).isEmpty = true ↔
    ∀ field ∈ r.permitted, ∀ c, r.model.column? field = some c → c.nullable = false →
      c.default? = none → c.serverDefault? = none → field ∈ Entries.keys entries := by
  rw [missingFields, Registry.sortedNames_isEmpty_iff, List.filter_eq_nil_iff]
  refine forall₂_congr fun field _ => ?_
  have hhas : Entries.has entries field = true ↔ field ∈ Entries.keys entries := by
    rw [Entries.has, Option.isSome_iff_ne_none, ne_eq, Entries.get?_eq_none_iff, not_not]
  rw [← hhas]
  cases r.model.column? field with
  | none => simp
  | some c =>
    cases hnull : c.nullable <;> cases hdefault : c.default? <;>
      cases hserver : c.serverDefault? <;> simp [Column.mayBeOmitted, hnull, hdefault, hserver]

theorem unknownFields_isEmpty_iff : (sortedNames ((Entries.keys entries).filter fun k =>
    !r.permitted.contains k)).isEmpty = true ↔
      ∀ field ∈ Entries.keys entries, field ∈ r.permitted := by
  rw [Registry.sortedNames_isEmpty_iff, List.filter_eq_nil_iff]
  simp

theorem sanitize_map_eq_ok_iff : r.sanitize (.map entries) isUpdate = .ok clean ↔
    (∀ field ∈ Entries.keys entries, field ∈ r.permitted) ∧ cleanAll r.model entries = .ok clean ∧
      (isUpdate = true → clean ≠ []) ∧
      (isUpdate = false → (r.missingFields entries).isEmpty = true) := by
  rw [sanitize, ← unknownFields_isEmpty_iff]
  cases (sortedNames ((Entries.keys entries).filter fun k =>
    !r.permitted.contains k)).isEmpty with
  | false => simp
  | true =>
    simp only [if_true, bind_eq_ok_iff, true_and]
    constructor
    · rintro ⟨cleaned, hcleaned, h⟩
      cases isUpdate with
      | true =>
        simp only [if_true] at h
        split at h
        · cases h
        · next hgiven =>
          cases h
          exact ⟨hcleaned, fun _ => by simpa using hgiven, fun h => nomatch h⟩
      | false =>
        simp only [Bool.false_eq_true, if_false] at h
        split at h
        · next hnone =>
          cases h
          exact ⟨hcleaned, fun h => (nomatch h), fun _ => hnone⟩
        · cases h
    · rintro ⟨hcleaned, hgiven, hnone⟩
      refine ⟨clean, hcleaned, ?_⟩
      cases isUpdate with
      | true =>
        rw [if_pos rfl, if_neg (by simpa using hgiven rfl)]
        rfl
      | false =>
        rw [if_neg Bool.false_ne_true, if_pos (hnone rfl)]
        rfl

/-- A payload that is not accepted is a bad request, or one of its values has no counterpart in its
column. -/
theorem of_sanitize_eq_error {payload : Value} {e : PayloadError}
    (h : r.sanitize payload isUpdate = .error e) :
    e.IsBadRequest ∨ ∃ entries, payload = .map entries ∧ r.FailsToCoerce entries e := by
  unfold sanitize at h
  split at h
  · next entries =>
    simp only at h
    split at h
    · next hknown =>
      rcases bind_eq_error_iff.1 h with hclean | ⟨cleaned, -, h⟩
      · rw [cleanAll_eq_mapM] at hclean
        obtain ⟨⟨field, v⟩, hmem, hentry⟩ := exists_of_mapM_eq_error hclean
        unfold cleanEntry at hentry
        split at hentry
        · cases hentry
          exact .inl ⟨_, rfl, rfl⟩
        · next c hc =>
          have hvalue : cleanValue c v = .error e := by
            cases hcleaned : cleanValue c v with
            | error failure =>
              rw [hcleaned] at hentry
              exact congrArg Except.error (Except.error.inj hentry)
            | ok cleaned =>
              rw [hcleaned] at hentry
              cases hentry
          exact (of_cleanValue_eq_error hvalue).imp_right fun ⟨failure, hfailure, he⟩ =>
            ⟨entries, rfl, unknownFields_isEmpty_iff.1 hknown, field, v, c, failure, hmem, hc,
              hfailure, he⟩
      · split at h
        · split at h
          · cases h
            exact .inl ⟨_, rfl, rfl⟩
          · cases h
        · split at h
          · cases h
          · cases h
            exact .inl ⟨_, rfl, rfl⟩
    · cases h
      exact .inl ⟨_, rfl, rfl⟩
  · cases h
    exact .inl ⟨_, rfl, rfl⟩

theorem of_sanitize_map_eq_error {e : PayloadError}
    (h : r.sanitize (.map entries) isUpdate = .error e) :
    e.IsBadRequest ∨ r.FailsToCoerce entries e := by
  refine (of_sanitize_eq_error h).imp_right ?_
  rintro ⟨others, hothers, hfails⟩
  cases hothers
  exact hfails

/-- Where every permitted field has a column, exactly the admissible payloads are accepted. -/
theorem exists_sanitize_iff (hr : ∀ field ∈ r.permitted, field ∈ r.model.fields) :
    (∃ clean, r.sanitize (.map entries) isUpdate = .ok clean) ↔ r.Admissible entries isUpdate := by
  simp only [sanitize_map_eq_ok_iff, missingFields_isEmpty_iff]
  constructor
  · rintro ⟨clean, hpermitted, hclean, hgiven, hrequired⟩
    rw [cleanAll_eq_mapM] at hclean
    have hvalue : ∀ field v c, (field, v) ∈ entries → r.model.column? field = some c →
        ∃ x, cleanValue c v = .ok x := by
      intro field v c hmem hc
      obtain ⟨cleaned, -, hentry⟩ := exists_mem_of_mapM hclean hmem
      obtain ⟨-, d, hd, hx⟩ := cleanEntry_eq_ok_iff.1 hentry
      rw [hc] at hd
      cases hd
      exact ⟨_, hx⟩
    refine ⟨hpermitted, fun field c hmem hc => ?_, fun field v c hmem hnull hc => ?_, hrequired,
      fun hupdate hnil => hgiven hupdate ?_⟩
    · exact (exists_cleanValue_iff.1 (hvalue field .null c hmem hc)).1 rfl
    · exact (exists_cleanValue_iff.1 (hvalue field v c hmem hc)).2 hnull
    · subst hnil
      exact (Except.ok.inj hclean).symm
  · intro h
    have hentry : ∀ entry ∈ entries, ∃ cleaned, cleanEntry r.model entry = .ok cleaned := by
      rintro ⟨field, v⟩ hmem
      obtain ⟨c, hc⟩ := Model.exists_column?_of_mem
        (hr field (h.permitted field (List.mem_map_of_mem hmem)))
      obtain ⟨x, hx⟩ : ∃ x, cleanValue c v = .ok x :=
        exists_cleanValue_iff.2 ⟨fun hnull => h.nullable field c (hnull ▸ hmem) hc,
          fun hnull => h.typed field v c hmem hnull hc⟩
      exact ⟨(field, x), cleanEntry_eq_ok_iff.2 ⟨rfl, c, hc, hx⟩⟩
    obtain ⟨clean, hclean⟩ := (mapM_ok_iff _ _).2 hentry
    rw [← cleanAll_eq_mapM] at hclean
    refine ⟨clean, h.permitted, hclean, fun hupdate hnil => ?_, h.required⟩
    have hkeys := keys_of_cleanAll hclean
    rw [hnil] at hkeys
    exact h.given hupdate (List.map_eq_nil_iff.1 hkeys.symm)

/-- The check of payloads, without the sequence of its steps: it accepts the admissible payloads, in
any order of their fields, and cleans each value on its own. Any other payload is a bad request,
unless a coercion fails, and so is what is no mapping. -/
structure ChecksPayloads (r : Resource) : Prop where
  accepts : ∀ entries isUpdate, (∃ clean, r.sanitize (.map entries) isUpdate = .ok clean) ↔
    r.Admissible entries isUpdate
  cleans : ∀ entries isUpdate clean, r.sanitize (.map entries) isUpdate = .ok clean →
    List.Forall₂ (Cleans r.model) entries clean
  refuses : ∀ entries isUpdate, ¬ r.Admissible entries isUpdate →
    ∃ e, r.sanitize (.map entries) isUpdate = .error e ∧
      (e.IsBadRequest ∨ r.FailsToCoerce entries e)
  refusesOthers : ∀ payload isUpdate, payload.isMap = false →
    ∃ e, r.sanitize payload isUpdate = .error e ∧ e.IsBadRequest
  anyOrder : ∀ entries others isUpdate, entries.Perm others →
    ((∃ clean, r.sanitize (.map entries) isUpdate = .ok clean) ↔
      ∃ clean, r.sanitize (.map others) isUpdate = .ok clean)

/-- Every registered resource checks its payloads so. -/
theorem checksPayloads_of_register {registry registry' : Registry} {g : Registration}
    (h : Registry.register registry g = .ok (registry', r)) : r.ChecksPayloads := by
  obtain ⟨name, hdefine⟩ := Registry.exists_define_of_register h
  have d := Registry.defines_of_define hdefine
  have hr : ∀ field ∈ r.permitted, field ∈ r.model.fields := by
    rw [d.model]
    exact fun field hfield => (Registry.of_readPermitted d.permitted field hfield).1
  refine ⟨fun entries isUpdate => exists_sanitize_iff hr, fun entries isUpdate clean hclean => ?_,
    fun entries isUpdate hnot => ?_, fun payload isUpdate hmap => ?_,
    fun entries others isUpdate hperm => ?_⟩
  · obtain ⟨-, hall, -⟩ := sanitize_map_eq_ok_iff.1 hclean
    rw [cleanAll_eq_mapM, mapM_eq_ok_iff_forall₂] at hall
    exact hall.imp fun _ _ => cleans_of_cleanEntry
  · cases hsanitize : r.sanitize (.map entries) isUpdate with
    | ok clean => exact absurd ((exists_sanitize_iff hr).1 ⟨clean, hsanitize⟩) hnot
    | error e => exact ⟨e, rfl, of_sanitize_map_eq_error hsanitize⟩
  · cases hsanitize : r.sanitize payload isUpdate with
    | ok clean =>
      obtain ⟨entries, rfl, -⟩ := of_sanitize hsanitize
      cases hmap
    | error e =>
      refine ⟨e, rfl, (of_sanitize_eq_error hsanitize).resolve_right ?_⟩
      rintro ⟨entries, rfl, -⟩
      cases hmap
  · rw [exists_sanitize_iff hr, exists_sanitize_iff hr]
    exact ⟨fun h => h.perm hperm, fun h => h.perm hperm.symm⟩

/-- A post may tell its title before its content or behind it, and may not tell one of them
alone. -/
theorem posts_check_payloads : ∃ registry r,
    Registry.register [] Posts.registration = .ok (registry, r) ∧
      r.Admissible [("title", .text "A"), ("content", .text "B")] false ∧
      (∃ clean, r.sanitize (.map [("content", .text "B"), ("title", .text "A")]) false =
        .ok clean) ∧
      ∃ e, r.sanitize (.map [("title", .text "A")]) false = .error e ∧ e.IsBadRequest := by
  have hfacts : (Registry.register [] Posts.registration).toOption.map (fun p =>
      (p.2.sanitize (.map [("title", .text "A"), ("content", .text "B")]) false).toOption.isSome &&
        !(p.2.sanitize (.map [("title", .text "A")]) false).toOption.isSome) = some true := by
    decide +kernel
  obtain ⟨⟨registry, r⟩, hregister, hfacts⟩ := exists_of_toOption_map hfacts
  obtain ⟨haccepted, hrefused⟩ := Bool.and_eq_true_iff.1 hfacts
  have checks := checksPayloads_of_register hregister
  have hclean := exists_of_isSome_toOption haccepted
  refine ⟨registry, r, hregister, (checks.accepts _ _).1 hclean,
    (checks.anyOrder _ _ _ (.swap _ _ _)).1 hclean, ?_⟩
  obtain ⟨e, he, hbad⟩ := checks.refuses [("title", .text "A")] false fun hadmissible => by
    obtain ⟨clean, hclean⟩ := (checks.accepts _ _).2 hadmissible
    rw [hclean] at hrefused
    cases hrefused
  refine ⟨e, he, hbad.resolve_right fun hfails => ?_⟩
  obtain ⟨field, v, c, failure, hmem, -, hfailure, -⟩ := hfails.value
  obtain ⟨rfl, rfl⟩ := Prod.mk.inj (List.mem_singleton.1 hmem)
  obtain ⟨x, hx⟩ := (Coercion.coerce_ok_iff c.kind (.text "A")).2 (by cases c.kind <;> rfl)
  rw [hfailure] at hx
  cases hx

end Resource

end TableApi
