import TableApi.Coercion

/-! What coercion does to a value. It fails only where a number has no counterpart in the other
number kind, and it makes a truth value of nothing but the words of a truth column. Whatever it
converts becomes a value of the column's own, so that coercing a second time changes nothing. -/

namespace TableApi

open Number

/-- Whether the value is null or a truth value, which stand in no order. -/
def Value.hasNoOrder : Value → Bool
  | .null | .bool _ => true
  | _ => false

theorem Calendar.Moment.orUtc_eq_self {m : Moment} (h : m.offset?.isSome = true) : m.orUtc = m := by
  obtain ⟨date, time, offset?⟩ := m
  obtain ⟨offset, rfl⟩ := Option.isSome_iff_exists.1 h
  rfl

theorem Value.isNull_iff {v : Value} : v.isNull = true ↔ v = .null := by
  cases v <;> simp [isNull]

namespace Coercion

/-- Whether the value is a number that the number kind of the column cannot hold. -/
def overflows : ColumnKind → Value → Bool
  | .integer, .float (.infinite _) => true
  | .float, .int n => (Double.ofInt? n).isNone
  | _, _ => false

/-- Whether the value, once it is in the kind of the column, stands in no order. -/
def losesOrder (kind : ColumnKind) (v : Value) : Bool :=
  v.hasNoOrder || (decide (kind = .boolean) && (toBool? v).isSome)

theorem toInteger?_ok_iff (v : Value) :
    (∃ x, toInteger? v = .ok x) ↔ overflows .integer v = false := by
  cases v with
  | float x => cases x <;> simp [toInteger?, overflows]
  | _ => simp [toInteger?, overflows]

theorem widen_ok_iff (n : Int) :
    (∃ x, widen n = .ok x) ↔ (Double.ofInt? n).isNone = false := by
  unfold widen
  cases Double.ofInt? n <;> simp

theorem toFloat?_ok_iff (v : Value) :
    (∃ x, toFloat? v = .ok x) ↔ overflows .float v = false := by
  cases v with
  | int n => exact widen_ok_iff n
  | _ => simp [toFloat?, overflows]

theorem convert?_ok_iff (kind : ColumnKind) (v : Value) :
    (∃ x, convert? kind v = .ok x) ↔ overflows kind v = false := by
  cases kind with
  | integer => exact toInteger?_ok_iff v
  | float => exact toFloat?_ok_iff v
  | _ => simp [convert?, overflows]

theorem coerce_of_ne_null (kind : ColumnKind) {v : Value} (hv : v.isNull = false) :
    coerce kind v = (convert? kind v).map fun converted? => converted?.getD v := by
  cases v <;> first | contradiction | rfl

theorem coerce_ok_iff (kind : ColumnKind) (v : Value) :
    (∃ x, coerce kind v = .ok x) ↔ overflows kind v = false := by
  by_cases hv : v.isNull
  · rw [Value.isNull_iff.1 hv]
    cases kind <;> simp [coerce, overflows]
  · rw [coerce_of_ne_null kind (by simpa using hv), ← convert?_ok_iff]
    cases convert? kind v <;> simp [Except.map]

/-! ### Truth values -/

theorem toBool?_eq_some {v x : Value} (h : toBool? v = some x) : ∃ b, x = .bool b := by
  unfold toBool? at h
  split at h
  · exact ⟨_, (Option.some.inj h).symm⟩
  · simp only at h
    split at h
    · exact ⟨true, (Option.some.inj h).symm⟩
    · split at h
      · exact ⟨false, (Option.some.inj h).symm⟩
      · cases h

theorem convert?_bool {kind : ColumnKind} (hk : kind ≠ .boolean) (b : Bool) :
    convert? kind (.bool b) = .ok none := by
  cases kind with
  | boolean => contradiction
  | date | moment | uuid => cases b <;> rfl
  | _ => rfl

/-! ### Settled values -/

theorem toInteger?_eq_some {v x : Value} (h : toInteger? v = .ok (some x)) : ∃ n, x = .int n := by
  unfold toInteger? at h
  split at h
  · cases h
  · exact ⟨_, (Option.some.inj (Except.ok.inj h)).symm⟩
  · cases h
  · obtain ⟨n, -, hn⟩ := Option.map_eq_some_iff.1 (Except.ok.inj h)
    exact ⟨n, hn.symm⟩
  · obtain ⟨n, -, hn⟩ := Option.map_eq_some_iff.1 (Except.ok.inj h)
    exact ⟨n, hn.symm⟩

theorem toFloat?_eq_some {v x : Value} (h : toFloat? v = .ok (some x)) : ∃ y, x = .float y := by
  unfold toFloat? at h
  split at h
  · cases h
  · next n =>
    unfold widen at h
    cases hn : Double.ofInt? n with
    | none =>
      rw [hn] at h
      cases h
    | some y =>
      rw [hn] at h
      exact ⟨y, (Option.some.inj (Except.ok.inj h)).symm⟩
  · exact ⟨_, (Option.some.inj (Except.ok.inj h)).symm⟩
  · obtain ⟨y, -, hy⟩ := Option.map_eq_some_iff.1 (Except.ok.inj h)
    exact ⟨y, hy.symm⟩

theorem toDecimal?_eq_some {v x : Value} (h : toDecimal? v = some x) : ∃ d, x = .decimal d := by
  unfold toDecimal? at h
  split at h
  · cases h
  · exact ⟨_, (Option.some.inj h).symm⟩
  · obtain ⟨s, -, h⟩ := Option.bind_eq_some_iff.1 h
    obtain ⟨d, -, hd⟩ := Option.map_eq_some_iff.1 h
    exact ⟨d, hd.symm⟩

theorem toDate?_eq_some {v x : Value} (h : toDate? v = some x) : ∃ d, x = .date d := by
  unfold toDate? at h
  split at h
  · exact ⟨_, (Option.some.inj h).symm⟩
  · simp only at h
    split at h
    · obtain ⟨m, -, hm⟩ := Option.map_eq_some_iff.1 h
      exact ⟨m.date, hm.symm⟩
    · obtain ⟨d, -, hd⟩ := Option.map_eq_some_iff.1 h
      exact ⟨d, hd.symm⟩

theorem toMoment?_eq_some {v x : Value} (h : toMoment? v = some x) :
    ∃ m, m.offset?.isSome = true ∧ x = .moment m := by
  unfold toMoment? at h
  split at h
  · exact ⟨_, rfl, (Option.some.inj h).symm⟩
  · obtain ⟨s, -, h⟩ := Option.bind_eq_some_iff.1 h
    obtain ⟨m, -, hm⟩ := Option.map_eq_some_iff.1 h
    exact ⟨m.orUtc, rfl, hm.symm⟩

theorem toUuid?_eq_some {v x : Value} (h : toUuid? v = some x) : ∃ u, x = .uuid u := by
  unfold toUuid? at h
  split at h
  · exact ⟨_, (Option.some.inj h).symm⟩
  · obtain ⟨u, -, hu⟩ := Option.map_eq_some_iff.1 h
    exact ⟨u, hu.symm⟩

/-- The values that a column has of its own, which conversion takes as they stand. A moment is one
of them only with an offset. -/
inductive Settled : ColumnKind → Value → Prop where
  | integer (n : Int) : Settled .integer (.int n)
  | float (y : Double) : Settled .float (.float y)
  | numeric (d : Decimal) : Settled .numeric (.decimal d)
  | boolean (b : Bool) : Settled .boolean (.bool b)
  | date (d : Calendar.Date) : Settled .date (.date d)
  | moment {m : Calendar.Moment} (h : m.offset?.isSome = true) : Settled .moment (.moment m)
  | uuid (u : Uuid) : Settled .uuid (.uuid u)

variable {kind : ColumnKind} {v x : Value}

/-- Whatever conversion makes is a value of the column's own. -/
theorem settled_of_convert? (h : convert? kind v = .ok (some x)) : Settled kind x := by
  cases kind with
  | integer =>
    obtain ⟨n, rfl⟩ := toInteger?_eq_some h
    exact .integer n
  | float =>
    obtain ⟨y, rfl⟩ := toFloat?_eq_some h
    exact .float y
  | numeric =>
    obtain ⟨d, rfl⟩ := toDecimal?_eq_some (Except.ok.inj h)
    exact .numeric d
  | boolean =>
    obtain ⟨b, rfl⟩ := toBool?_eq_some (Except.ok.inj h)
    exact .boolean b
  | date =>
    obtain ⟨d, rfl⟩ := toDate?_eq_some (Except.ok.inj h)
    exact .date d
  | moment =>
    obtain ⟨m, hoffset, rfl⟩ := toMoment?_eq_some (Except.ok.inj h)
    exact .moment hoffset
  | uuid =>
    obtain ⟨u, rfl⟩ := toUuid?_eq_some (Except.ok.inj h)
    exact .uuid u
  | text | json | raw => cases h

theorem Settled.coerce_eq (h : Settled kind x) : coerce kind x = .ok x := by
  cases h with
  | moment hoffset =>
    rw [coerce_of_ne_null .moment rfl, convert?, toMoment?, Calendar.Moment.orUtc_eq_self hoffset]
    rfl
  | _ => rfl

/-- What is coerced was passed through or converted. -/
theorem coerce_cases (h : coerce kind v = .ok x) :
    x = v ∨ convert? kind v = .ok (some x) := by
  cases hnull : v.isNull with
  | true =>
    rw [Value.isNull_iff.1 hnull] at h ⊢
    exact .inl (Except.ok.inj h).symm
  | false =>
    rw [coerce_of_ne_null kind hnull] at h
    cases hconvert : convert? kind v with
    | error e =>
      rw [hconvert] at h
      cases h
    | ok converted? =>
      rw [hconvert] at h
      obtain rfl : converted?.getD v = x := Except.ok.inj h
      cases converted? with
      | none => exact .inl rfl
      | some y => exact .inr rfl

/-- Coercing a coerced value changes nothing, whether it was passed through or converted to one of
the column's own. What could not be converted cannot be converted the second time either. -/
theorem coerce_idempotent (h : coerce kind v = .ok x) :
    (x = v ∨ Settled kind x) ∧ coerce kind x = .ok x := by
  rcases coerce_cases h with rfl | hconvert
  · exact ⟨.inl rfl, h⟩
  · have hsettled : Settled kind x := settled_of_convert? hconvert
    exact ⟨.inr hsettled, hsettled.coerce_eq⟩

def leapDay : Calendar.Date := ⟨2024, 2, 29, by decide⟩

/-- A date in a column of moments becomes its first moment in universal time, and that is kept. -/
theorem coerce_leapDay :
    coerce .moment (.date leapDay) = .ok (.moment ⟨leapDay, .midnight, some .utc⟩) ∧
      coerce .moment (.moment ⟨leapDay, .midnight, some .utc⟩) =
        .ok (.moment ⟨leapDay, .midnight, some .utc⟩) := by
  have hfirst : coerce .moment (.date leapDay) = .ok (.moment ⟨leapDay, .midnight, some .utc⟩) := by
    rfl
  exact ⟨hfirst, (coerce_idempotent hfirst).2⟩

/-! ### Order -/

theorem hasNoOrder_of_convert? (hk : kind ≠ .boolean) (h : convert? kind v = .ok (some x)) :
    x.hasNoOrder = false := by
  cases settled_of_convert? h with
  | boolean => contradiction
  | _ => rfl

/-- A coerced value stands in no order exactly when the value had none, or is a truth word in a
column of truth values. -/
theorem hasNoOrder_coerce {kind : ColumnKind} {v x : Value} (h : coerce kind v = .ok x) :
    x.hasNoOrder = losesOrder kind v := by
  by_cases hnull : v.isNull
  · rw [Value.isNull_iff.1 hnull] at h ⊢
    have hx : x = .null := (Except.ok.inj h).symm
    rw [hx]
    rfl
  rw [coerce_of_ne_null kind (by simpa using hnull)] at h
  by_cases hk : kind = .boolean
  · subst hk
    have hx : (toBool? v).getD v = x := Except.ok.inj h
    cases hb : toBool? v with
    | none =>
      rw [hb] at hx
      simp [losesOrder, hb, ← hx]
    | some y =>
      obtain ⟨b, rfl⟩ := toBool?_eq_some hb
      rw [hb] at hx
      simp [losesOrder, hb, ← hx, Value.hasNoOrder]
  · have hloses : losesOrder kind v = v.hasNoOrder := by simp [losesOrder, hk]
    rw [hloses]
    cases hc : convert? kind v with
    | error e => simp [hc, Except.map] at h
    | ok converted =>
      have hx : converted.getD v = x := by simpa [hc, Except.map] using h
      cases converted with
      | none => rw [← hx, Option.getD_none]
      | some y =>
        have hy : y.hasNoOrder = false := hasNoOrder_of_convert? hk hc
        have hv : v.hasNoOrder = false := by
          cases v with
          | bool b => simp [convert?_bool hk] at hc
          | null => contradiction
          | _ => rfl
        rw [← hx, Option.getD_some, hy, hv]

end Coercion

end TableApi
