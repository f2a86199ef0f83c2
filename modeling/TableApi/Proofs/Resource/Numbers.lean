import TableApi.Proofs.Coercion.Nested
import TableApi.Proofs.Number.Double
import TableApi.Proofs.Resource.Admissible
import TableApi.Proofs.Resource.Findable
import TableApi.Proofs.Resource.Writes

/-! Numbers in payloads. A column of integers takes every value that denotes an integer as that
integer. It takes two sorts of values beyond these: a truth value passes as it is, since it counts
as an integer, and a number with a fraction is cut, although the text of such a number is refused.
All other values are refused, an infinite number with an error of its own; and columns of floats and
decimals refuse truth values. Nothing is stored of a payload that is not accepted. -/

namespace TableApi

namespace Double

/-- A number is read as an integer exactly when it equals it. -/
theorem toInt?_eq_some_iff {x : Double} {n : Int} :
    x.toInt? = some n ↔ Magnitude.ofDouble? x = some (.ofInt n) := by
  cases x with
  | nan => simp [toInt?, Magnitude.ofDouble?]
  | infinite negative =>
    have hbeyond : Magnitude.ofDouble? (infinite negative) ≠ some (.ofInt n) := by
      intro h
      cases negative <;> cases Option.some.inj h
    exact iff_of_false (Option.some_ne_none n).symm hbeyond
  | finite negative units =>
    have hscale : 0 < scale := scale_pos
    simp only [toInt?, truncate?, Magnitude.ofDouble?, Magnitude.ofInt, Option.some.injEq,
      Magnitude.units.injEq]
    generalize scale = k at hscale ⊢
    by_cases hwhole : units % k = 0
    · obtain ⟨q, rfl⟩ := Nat.dvd_of_mod_eq_zero hwhole
      have hk : (k : Int) ≠ 0 := Int.natCast_ne_zero.2 hscale.ne'
      have htimes : (if negative then -((k * q : Nat) : Int) else (k * q : Nat)) =
          (if negative then -(q : Int) else q) * k := by
        cases negative <;> simp [Int.mul_comm]
      rw [if_pos hwhole, Nat.mul_div_cancel_left q hscale, Option.some.injEq, htimes,
        mul_left_inj' hk]
    · rw [if_neg hwhole]
      refine iff_of_false (Option.some_ne_none n).symm fun h => hwhole ?_
      have hunits : units = n.natAbs * k := by
        rw [← Int.natAbs_natCast k, ← Int.natAbs_mul, ← h]
        cases negative <;> simp
      rw [hunits, Nat.mul_mod_left]

end Double

/-- The value is an integer, a number that equals one, or the text of one. -/
inductive Value.Denotes : Value → Int → Prop where
  | int (n : Int) : Denotes (.int n) n
  | float {x : Double} {n : Int} (h : Magnitude.ofDouble? x = some (.ofInt n)) :
    Denotes (.float x) n
  | text {s : String} {n : Int} (h : Number.readInteger? s = some n) : Denotes (.text s) n

/-- What a column of integers makes of the values that it takes. -/
inductive Value.TakenAs : Value → Value → Prop where
  | integer {v : Value} {n : Int} (h : v.Denotes n) : TakenAs v (.int n)
  | truth (b : Bool) : TakenAs (.bool b) (.bool b)
  | cut {x : Double} {n : Int} (h : x.truncate? = some n)
    (hfraction : ∀ k, ¬ Denotes (.float x) k) : TakenAs (.float x) (.int n)

namespace Resource

variable {r : Resource} {field : String} {c : Column} {v x : Value} {entries : Entries Value}

/-! ### Values -/

theorem toInt?_of_denotes {y : Double} {n : Int} (h : (Value.float y).Denotes n) :
    y.toInt? = some n := by
  cases h with
  | float h => exact Double.toInt?_eq_some_iff.2 h

theorem truncate?_of_toInt? {y : Double} {n : Int} (h : y.toInt? = some n) :
    y.truncate? = some n := by
  unfold Double.toInt? at h
  split at h
  · split at h
    · exact h
    · cases h
  · cases h

theorem takenAs_of_truncate? {y : Double} {n : Int} (h : y.truncate? = some n) :
    (Value.float y).TakenAs (.int n) := by
  by_cases hfraction : ∀ k, ¬ (Value.float y).Denotes k
  · exact .cut h hfraction
  · obtain ⟨k, hk⟩ := not_forall_not.1 hfraction
    have hcut := truncate?_of_toInt? (toInt?_of_denotes hk)
    rw [h] at hcut
    cases hcut
    exact .integer hk

theorem coerce_integer_float {y : Double} {n : Int} (h : y.truncate? = some n) :
    coerce .integer (.float y) = .ok (.int n) := by
  cases y with
  | finite negative units =>
    have hcoerce : coerce .integer (.float (.finite negative units)) =
        .ok (((Double.finite negative units).truncate?.map Value.int).getD
          (.float (.finite negative units))) := rfl
    rw [hcoerce, h]
    rfl
  | _ => cases h

theorem coerce_integer_text (s : String) :
    coerce .integer (.text s) = .ok (((Number.readInteger? s).map Value.int).getD (.text s)) := rfl

theorem coerce_integer_of_takenAs (h : v.TakenAs x) : coerce .integer v = .ok x := by
  cases h with
  | truth b => rfl
  | cut h _ => exact coerce_integer_float h
  | integer h =>
    cases h with
    | int n => rfl
    | float h => exact coerce_integer_float (truncate?_of_toInt? (Double.toInt?_eq_some_iff.2 h))
    | text h => rw [coerce_integer_text, h, Option.map_some, Option.getD_some]

/-- Of the values of JSON no others become integers or truth values. -/
theorem takenAs_of_coerce (hjson : v.isJson = true) (h : coerce .integer v = .ok x)
    (hx : x.IsOf .integer) : v.TakenAs x := by
  cases v with
  | null =>
    cases h
    cases hx
  | bool b =>
    cases h
    exact .truth b
  | int n =>
    cases h
    exact .integer (.int n)
  | float y =>
    cases hcut : y.truncate? with
    | some n =>
      rw [coerce_integer_float hcut] at h
      cases h
      exact takenAs_of_truncate? hcut
    | none =>
      cases y with
      | nan =>
        cases h
        cases hx
      | infinite negative => cases h
      | finite negative units => cases hcut
  | text s =>
    rw [coerce_integer_text] at h
    cases hread : Number.readInteger? s with
    | some n =>
      rw [hread] at h
      cases h
      exact .integer (.text hread)
    | none =>
      rw [hread] at h
      cases h
      cases hx
  | list items =>
    rw [Coercion.coerce_nested rfl] at h
    cases h
    cases hx
  | map entries =>
    rw [Coercion.coerce_nested rfl] at h
    cases h
    cases hx
  | _ => cases hjson

/-- A column of integers takes null where it may be null, and else the values that are taken. -/
theorem cleanValue_integer_iff (hkind : c.kind = .integer) (hjson : v.isJson = true) :
    cleanValue c v = .ok x ↔ v = .null ∧ c.nullable = true ∧ x = .null ∨ v.TakenAs x := by
  rw [cleanValue_eq_ok_iff, hkind]
  refine or_congr_right ⟨fun ⟨_, hcoerce, htyped⟩ => takenAs_of_coerce hjson hcoerce (htyped rfl),
    fun h => ⟨?_, coerce_integer_of_takenAs h, fun _ => ?_⟩⟩
  · rintro rfl
    cases h with
    | integer h => cases h
  · cases h with
    | integer h => exact .int _
    | truth b => exact .truth b
    | cut h _ => exact .int _

theorem not_cleanValue_bool (hkind : c.kind = .float ∨ c.kind = .numeric) (b : Bool) :
    cleanValue c (.bool b) ≠ .ok x := by
  intro h
  rcases cleanValue_eq_ok_iff.1 h with ⟨hnull, -⟩ | ⟨-, hcoerce, htyped⟩
  · cases hnull
  · rcases hkind with hkind | hkind <;>
    · rw [hkind] at hcoerce htyped
      cases hcoerce
      cases htyped rfl

/-! ### Requests -/

/-- Nothing comes of the requests with a payload: they are answered as bad requests, unless the
coercion of one of its values fails, and leave the state as it is. -/
structure IsRefused (r : Resource) (entries : Entries Value) : Prop where
  create : ∀ now state, ∃ e,
    r.create now (.map entries) state = ⟨.error (.ofPayload e), state, []⟩ ∧
      (e.IsBadRequest ∨ r.FailsToCoerce entries e)
  update : ∀ now address state found, r.find state.store address = .ok found →
    ∃ e, r.update now address (.map entries) state = ⟨.error (.ofPayload e), state, []⟩ ∧
      (e.IsBadRequest ∨ r.FailsToCoerce entries e)

/-- A payload with a value that its column does not take is not accepted. -/
theorem isRefused_of_entry (hmem : (field, v) ∈ entries) (hc : r.model.column? field = some c)
    (hv : ∀ x, cleanValue c v ≠ .ok x) : r.IsRefused entries := by
  have hrefused : ∀ isUpdate, ∃ e, r.sanitize (.map entries) isUpdate = .error e ∧
      (e.IsBadRequest ∨ r.FailsToCoerce entries e) := by
    intro isUpdate
    cases hsanitize : r.sanitize (.map entries) isUpdate with
    | ok clean =>
      obtain ⟨-, hclean, -⟩ := sanitize_map_eq_ok_iff.1 hsanitize
      rw [cleanAll_eq_mapM] at hclean
      obtain ⟨cleaned, -, hentry⟩ := exists_mem_of_mapM hclean hmem
      obtain ⟨-, d, hd, hx⟩ := cleanEntry_eq_ok_iff.1 hentry
      rw [hc] at hd
      cases hd
      exact absurd hx (hv _)
    | error e => exact ⟨e, rfl, of_sanitize_map_eq_error hsanitize⟩
  obtain ⟨e, hcreate, hbad⟩ := hrefused false
  obtain ⟨e', hupdate, hbad'⟩ := hrefused true
  exact ⟨fun now state => ⟨e, create_of_sanitize_eq_error hcreate now state, hbad⟩,
    fun now address state found hfind =>
      ⟨e', update_of_sanitize_eq_error hfind hupdate now, hbad'⟩⟩

/-! ### Columns -/

/-- What a field with a column of integers makes of the values of JSON. -/
structure TakesIntegers (r : Resource) (field : String) (c : Column) : Prop where
  accepted : ∀ entries v isUpdate clean, (field, v) ∈ entries → v.isJson = true →
    r.sanitize (.map entries) isUpdate = .ok clean → ∃ x, (field, x) ∈ clean ∧
      (v = .null ∧ c.nullable = true ∧ x = .null ∨ v.TakenAs x)
  taken : ∀ v x, v.TakenAs x → cleanValue c v = .ok x
  refused : ∀ entries v, (field, v) ∈ entries → v.isJson = true →
    (v = .null → c.nullable = false) → (∀ x, ¬ v.TakenAs x) → r.IsRefused entries
  endless : ∀ negative, cleanValue c (.float (.infinite negative)) =
    .error (.coercion .infinityToInteger)

/-- A column of integers takes integers as they are, but also truth values, and numbers with a
fraction without it; other values are refused and nothing is stored. Columns of floats and decimals
refuse truth values. -/
theorem numbers_taken_or_refused (hc : r.model.column? field = some c) :
    (c.kind = .integer → r.TakesIntegers field c) ∧
      (c.kind = .float ∨ c.kind = .numeric →
        ∀ entries b, (field, .bool b) ∈ entries → r.IsRefused entries) := by
  refine ⟨fun hkind => ⟨fun entries v isUpdate clean hmem hjson hclean => ?_, fun v x hx => ?_,
    fun entries v hmem hjson hnull hnone => ?_, fun negative => ?_⟩, fun hkind entries b hmem =>
      isRefused_of_entry hmem hc fun x => not_cleanValue_bool hkind b⟩
  · obtain ⟨-, hall, -⟩ := sanitize_map_eq_ok_iff.1 hclean
    rw [cleanAll_eq_mapM] at hall
    obtain ⟨⟨key, x⟩, hx, hentry⟩ := exists_mem_of_mapM hall hmem
    obtain ⟨hkey, d, hd, hvalue⟩ := cleanEntry_eq_ok_iff.1 hentry
    cases hkey
    rw [hc] at hd
    cases hd
    exact ⟨x, hx, (cleanValue_integer_iff hkind hjson).1 hvalue⟩
  · have hjson : v.isJson = true := by
      cases hx with
      | integer h => cases h <;> rfl
      | truth b => rfl
      | cut h _ => rfl
    exact (cleanValue_integer_iff hkind hjson).2 (.inr hx)
  · refine isRefused_of_entry hmem hc fun x hx => ?_
    rcases (cleanValue_integer_iff hkind hjson).1 hx with ⟨hv, hnullable, -⟩ | htaken
    · rw [hnull hv] at hnullable
      cases hnullable
    · exact hnone x htaken
  · have hvalue : Value.float (.infinite negative) ≠ .null := fun h => nomatch h
    rw [cleanValue_of_ne_null c hvalue, hkind]
    rfl

/-- The cell in the column of scores after a game with this score is created where there is none. -/
def storedScore (r : Resource) (score : Value) : List Cell :=
  ((r.create noon (.map [("score", score)]) ⟨Store.empty [games], 0⟩).state.store.rows games).map
    fun row => row.cell "score"

def oneAndHalf : Double := .ofRatio false 3 2

/-- A score of one and a half and a score that is true are stored as one, although neither denotes
an integer. -/
theorem scores_of_one : ∃ registry r, Registry.register [] filteredGames = .ok (registry, r) ∧
    "score" ∈ r.permitted ∧ (r.model.column? "score").map Column.kind = some .integer ∧
      (∀ n, ¬ (Value.float oneAndHalf).Denotes n) ∧ (∀ n, ¬ (Value.bool true).Denotes n) ∧
        r.storedScore (.float oneAndHalf) = [.integer 1] ∧
        r.storedScore (.bool true) = [.integer 1] := by
  have hfacts : (Registry.register [] filteredGames).toOption.map (fun p =>
      decide ("score" ∈ p.2.permitted ∧
        (p.2.model.column? "score").map Column.kind = some .integer ∧
        p.2.storedScore (.float oneAndHalf) = [.integer 1] ∧
        p.2.storedScore (.bool true) = [.integer 1])) = some true := by
    decide +kernel
  obtain ⟨⟨registry, r⟩, hregister, hfacts⟩ := exists_of_toOption_map hfacts
  obtain ⟨hpermitted, hkind, hcut, htruth⟩ := of_decide_eq_true hfacts
  refine ⟨registry, r, hregister, hpermitted, hkind, fun n h => ?_, fun n h => (nomatch h), hcut,
    htruth⟩
  have hwhole : oneAndHalf.toInt? = none := by decide +kernel
  rw [toInt?_of_denotes h] at hwhole
  cases hwhole

/-- A score is taken from its text; the text of a score with a fraction is refused. -/
theorem games_take_scores : ∃ registry r c, Registry.register [] filteredGames = .ok (registry, r) ∧
    r.model.column? "score" = some c ∧ cleanValue c (.text "1_000") = .ok (.int 1000) ∧
      r.IsRefused [("score", .text "1.5")] := by
  have hfacts : (Registry.register [] filteredGames).toOption.map (fun p =>
      (p.2.model.column? "score").map Column.kind) = some (some .integer) := by
    decide +kernel
  obtain ⟨⟨registry, r⟩, hregister, hkind⟩ := exists_of_toOption_map hfacts
  obtain ⟨c, hc, hkind⟩ := Option.map_eq_some_iff.1 hkind
  have takes := (numbers_taken_or_refused hc).1 hkind
  refine ⟨registry, r, c, hregister, hc, takes.taken _ _ (.integer (.text ?_)),
    takes.refused _ (.text "1.5") (List.mem_singleton.2 rfl) rfl (fun h => nomatch h) ?_⟩
  · decide +kernel
  · have hnone : Number.readInteger? "1.5" = none := by decide +kernel
    intro x hx
    cases hx with
    | integer h =>
      cases h with
      | text h =>
        rw [hnone] at h
        cases h

end Resource

end TableApi
