import Mathlib.Tactic.Ring
import TableApi.Number.Decimal

/-! The largest finite number. Rounding gives no finite number beyond it, and gives a finite one for
exactly the quotients that are less than half a step beyond it. So what is rounded once to binary64
and then to two places is finite again. -/

namespace TableApi

open Number

namespace Double

def maxUnits : Nat := overflowUnits - twoTo 2045

/-! ### Powers -/

theorem twoTo_add (a b : Nat) : twoTo (a + b) = twoTo a * twoTo b := Nat.pow_add 2 a b

theorem twoTo_succ (a : Nat) : twoTo (a + 1) = twoTo a * 2 := Nat.pow_succ 2 a

theorem twoTo_pos (a : Nat) : 0 < twoTo a := Nat.pow_pos Nat.two_pos

theorem twoTo_le_twoTo {a b : Nat} (h : a ≤ b) : twoTo a ≤ twoTo b :=
  Nat.pow_le_pow_right Nat.two_pos h

theorem scale_pos : 0 < scale := twoTo_pos _

theorem overflowUnits_eq : overflowUnits = twoTo 53 * twoTo 2045 := by
  rw [overflowUnits, scale, ← twoTo_add, ← twoTo_add]

theorem maxUnits_eq : maxUnits = (twoTo 53 - 1) * twoTo 2045 := by
  rw [maxUnits, overflowUnits_eq, Nat.sub_mul, Nat.one_mul]

theorem twoTo_le_overflowUnits : twoTo 2045 ≤ overflowUnits := by
  rw [overflowUnits_eq]
  exact Nat.le_mul_of_pos_left _ (twoTo_pos 53)

theorem maxUnits_lt : maxUnits < overflowUnits := by
  have hpos := twoTo_pos 2045
  have hle := twoTo_le_overflowUnits
  unfold maxUnits
  omega

theorem twoTo_le_maxUnits : twoTo 2097 ≤ maxUnits := by
  have hsplit : twoTo 2097 = twoTo 52 * twoTo 2045 := by rw [← twoTo_add]
  rw [maxUnits_eq, hsplit]
  exact Nat.mul_le_mul_right _ (by decide)

theorem lt_twoTo_bitLength (n : Nat) : n < twoTo (bitLength n) := by
  unfold bitLength
  split
  · next h =>
    rw [h]
    exact twoTo_pos 0
  · exact Nat.lt_log2_self

theorem bitLength_le {n k : Nat} (h : n < twoTo k) : bitLength n ≤ k := by
  unfold bitLength
  split
  · exact Nat.zero_le k
  · next hn => exact (Nat.log2_lt hn).2 h

/-! ### Rounding -/

theorem roundQuotient_le_succ (num den : Nat) : roundQuotient num den ≤ num / den + 1 := by
  unfold roundQuotient
  dsimp only
  split
  · exact Nat.le_succ _
  · split
    · exact Nat.le_refl _
    · have := Nat.mod_lt (num / den) Nat.two_pos
      omega

theorem le_roundQuotient (num den : Nat) : num / den ≤ roundQuotient num den := by
  unfold roundQuotient
  dsimp only
  split
  · exact Nat.le_refl _
  · split
    · exact Nat.le_succ _
    · exact Nat.le_add_right _ _

/-- A quotient below the middle between a number and the next is rounded to at most the number. -/
theorem roundQuotient_le {num den k : Nat} (h : 2 * num < den * (2 * k + 1)) :
    roundQuotient num den ≤ k := by
  have hpos : 0 < den := Nat.pos_of_mul_pos_right (Nat.zero_lt_of_lt h)
  rcases Nat.lt_or_ge (num / den) k with hlt | hge
  · exact (roundQuotient_le_succ num den).trans hlt
  · -- The quotient is the number itself, and the rest is less than half the divisor.
    have hdiv := Nat.div_add_mod num den
    have hrest : den * k + num % den ≤ num := by
      calc den * k + num % den ≤ den * (num / den) + num % den :=
            Nat.add_le_add_right (Nat.mul_le_mul_left den hge) _
        _ = num := hdiv
    have hsmall : 2 * (num % den) < den := by
      have hexpand : den * (2 * k + 1) = 2 * (den * k) + den := by ring
      omega
    have heq : num / den = k := by
      refine Nat.le_antisymm ?_ hge
      refine Nat.lt_succ_iff.1 ((Nat.div_lt_iff_lt_mul hpos).2 ?_)
      have hexpand : den * (2 * k + 1) = 2 * (den * k) + den := by ring
      rw [Nat.succ_mul, Nat.mul_comm k]
      omega
    unfold roundQuotient
    simp only [hsmall, if_true, heq]
    exact Nat.le_refl k

/-- A quotient from the middle between an odd number and the next on is rounded up. -/
theorem succ_le_roundQuotient {num den k : Nat} (hpos : 0 < den) (hodd : k % 2 = 1)
    (h : den * (2 * k + 1) ≤ 2 * num) : k + 1 ≤ roundQuotient num den := by
  have hexpand : den * (2 * k + 1) = 2 * (den * k) + den := by ring
  have hle : k ≤ num / den := by
    rw [Nat.le_div_iff_mul_le hpos, Nat.mul_comm]
    omega
  rcases Nat.lt_or_ge k (num / den) with hlt | hge
  · exact Nat.le_trans hlt (le_roundQuotient num den)
  · -- The quotient is the odd number itself, and the rest is at least half the divisor.
    have heq : num / den = k := Nat.le_antisymm hge hle
    have hdiv := Nat.div_add_mod num den
    rw [heq] at hdiv
    unfold roundQuotient
    dsimp only
    rw [heq, if_neg (by omega)]
    split <;> omega

theorem nearestUnits_le (num den : Nat) :
    nearestUnits num den ≤ num / den + twoTo (bitLength (num / den) - precision) := by
  unfold nearestUnits
  dsimp only
  set step := twoTo (bitLength (num / den) - precision)
  calc roundQuotient num (den * step) * step
      ≤ (num / (den * step) + 1) * step := Nat.mul_le_mul_right _ (roundQuotient_le_succ _ _)
    _ = num / den / step * step + step := by rw [Nat.add_mul, Nat.one_mul, Nat.div_div_eq_div_mul]
    _ ≤ num / den + step := Nat.add_le_add_right (Nat.div_mul_le_self _ _) _

/-- Below the last power of two rounding stays below the largest finite number. -/
theorem nearestUnits_le_maxUnits_of_bitLength {num den : Nat}
    (h : bitLength (num / den) ≤ 2097) : nearestUnits num den ≤ maxUnits := by
  have hquotient : num / den < twoTo 2097 :=
    (lt_twoTo_bitLength _).trans_le (twoTo_le_twoTo h)
  have hstep : twoTo (bitLength (num / den) - precision) ≤ twoTo 2045 :=
    twoTo_le_twoTo (by unfold precision; omega)
  have hsplit : twoTo 2097 = twoTo 52 * twoTo 2045 := by rw [← twoTo_add]
  have hroom : (twoTo 52 + 1) * twoTo 2045 ≤ maxUnits := by
    rw [maxUnits_eq]
    exact Nat.mul_le_mul_right _ (by decide)
  calc nearestUnits num den ≤ num / den + twoTo (bitLength (num / den) - precision) :=
        nearestUnits_le num den
    _ ≤ twoTo 2097 + twoTo 2045 := Nat.add_le_add hquotient.le hstep
    _ = (twoTo 52 + 1) * twoTo 2045 := by rw [hsplit, Nat.add_mul, Nat.one_mul]
    _ ≤ maxUnits := hroom

/-- No finite number that rounding gives is beyond the largest one. -/
theorem nearestUnits_le_maxUnits {num den : Nat} (h : nearestUnits num den < overflowUnits) :
    nearestUnits num den ≤ maxUnits := by
  rcases Nat.lt_or_ge (bitLength (num / den)) 2098 with hlow | hhigh
  · exact nearestUnits_le_maxUnits_of_bitLength (Nat.le_of_lt_succ hlow)
  · -- The count of units is a multiple of the last step, and less than the overflow.
    obtain ⟨j, hj⟩ : ∃ j, bitLength (num / den) - precision = j + 2045 :=
      ⟨bitLength (num / den) - precision - 2045, by unfold precision; omega⟩
    have hunits : nearestUnits num den =
        roundQuotient num (den * twoTo (j + 2045)) * twoTo j * twoTo 2045 := by
      unfold nearestUnits
      dsimp only
      rw [hj, twoTo_add, Nat.mul_assoc]
    rw [hunits, overflowUnits_eq] at h
    have hsteps := Nat.lt_of_mul_lt_mul_right h
    rw [hunits, maxUnits_eq]
    exact Nat.mul_le_mul_right _ (Nat.le_sub_one_of_lt hsteps)

/-- A quotient less than half a step beyond the largest finite number is rounded to a finite one. -/
theorem nearestUnits_lt_overflowUnits {num den : Nat}
    (h : num < den * (maxUnits + twoTo 2044)) : nearestUnits num den < overflowUnits := by
  refine Nat.lt_of_le_of_lt ?_ maxUnits_lt
  rcases Nat.lt_or_ge (bitLength (num / den)) 2098 with hlow | hhigh
  · exact nearestUnits_le_maxUnits_of_bitLength (Nat.le_of_lt_succ hlow)
  · have hhalf : twoTo 2045 = twoTo 2044 * 2 := twoTo_succ 2044
    have hlast : maxUnits + twoTo 2045 = twoTo 2098 := by
      rw [maxUnits_eq, ← Nat.succ_mul, Nat.succ_eq_add_one, Nat.sub_add_cancel (twoTo_pos 53),
        ← twoTo_add]
    have hquotient : num / den < twoTo 2098 := by
      have hlt := Nat.div_lt_of_lt_mul h
      omega
    have hlength : bitLength (num / den) = 2098 :=
      Nat.le_antisymm (bitLength_le hquotient) hhigh
    have hstep : bitLength (num / den) - precision = 2045 := by
      rw [hlength]
      rfl
    unfold nearestUnits
    dsimp only
    rw [hstep, maxUnits_eq]
    refine Nat.mul_le_mul_right _ (roundQuotient_le ?_)
    calc 2 * num < 2 * (den * (maxUnits + twoTo 2044)) := Nat.mul_lt_mul_of_pos_left h Nat.two_pos
      _ = den * twoTo 2045 * (2 * (twoTo 53 - 1) + 1) := by
        rw [maxUnits_eq, hhalf]
        ring

/-- A quotient at least half a step beyond the largest finite number is rounded to no finite one. -/
theorem overflowUnits_le_nearestUnits {num den : Nat} (hpos : 0 < den)
    (h : den * (maxUnits + twoTo 2044) ≤ num) : overflowUnits ≤ nearestUnits num den := by
  have hsplit : twoTo 2098 = twoTo 53 * twoTo 2045 := by rw [← twoTo_add]
  have hquotient : maxUnits + twoTo 2044 ≤ num / den := by
    rwa [Nat.le_div_iff_mul_le hpos, Nat.mul_comm]
  have hmax := twoTo_le_maxUnits
  have hlength : 2098 ≤ bitLength (num / den) := by
    by_contra hshort
    have hlt : num / den < twoTo 2097 :=
      (lt_twoTo_bitLength _).trans_le (twoTo_le_twoTo (by omega))
    omega
  obtain ⟨j, hj⟩ := Nat.exists_eq_add_of_le hlength
  have hstep : bitLength (num / den) - precision = 2045 + j := by
    rw [hj]
    unfold precision
    omega
  unfold nearestUnits
  dsimp only
  rw [hstep, overflowUnits_eq]
  cases j with
  | zero =>
    -- The largest significand is odd, so that the middle behind it goes up.
    refine Nat.mul_le_mul_right _ (succ_le_roundQuotient (k := twoTo 53 - 1)
      (Nat.mul_pos hpos (twoTo_pos _)) (by decide) ?_)
    have hhalf : twoTo 2045 = twoTo 2044 * 2 := twoTo_succ 2044
    calc den * twoTo 2045 * (2 * (twoTo 53 - 1) + 1)
        = 2 * (den * (maxUnits + twoTo 2044)) := by
          rw [maxUnits_eq, hhalf]
          ring
      _ ≤ 2 * num := Nat.mul_le_mul_left 2 h
  | succ j =>
    have hlarge : twoTo (2098 + j) ≤ num / den := by
      by_contra hsmall
      have hshort := bitLength_le (Nat.lt_of_not_le hsmall)
      omega
    have hsteps : twoTo 52 ≤ roundQuotient num (den * twoTo (2045 + (j + 1))) := by
      refine (le_roundQuotient _ _).trans' ?_
      rw [← Nat.div_div_eq_div_mul, Nat.le_div_iff_mul_le (twoTo_pos _), ← twoTo_add]
      exact hlarge.trans' (twoTo_le_twoTo (by omega))
    calc twoTo 53 * twoTo 2045 = twoTo 2098 := hsplit.symm
      _ ≤ twoTo (52 + (2045 + (j + 1))) := twoTo_le_twoTo (by omega)
      _ = twoTo 52 * twoTo (2045 + (j + 1)) := twoTo_add _ _
      _ ≤ roundQuotient num (den * twoTo (2045 + (j + 1))) * twoTo (2045 + (j + 1)) :=
        Nat.mul_le_mul_right _ hsteps

/-! ### The bounds -/

theorem scale_le : scale ≤ twoTo 2044 := twoTo_le_twoTo (by omega)

theorem maxUnits_add_half : maxUnits + twoTo 2044 = (twoTo 1024 - twoTo 970) * scale := by
  have hsplit : twoTo 2045 = twoTo 2044 + twoTo 2044 := by
    rw [show (2045 : Nat) = 2044 + 1 from rfl, twoTo_succ, Nat.mul_two]
  have hle := twoTo_le_overflowUnits
  have hscaled : twoTo 970 * scale = twoTo 2044 := by rw [scale, ← twoTo_add]
  rw [Nat.sub_mul, hscaled, ← overflowUnits, maxUnits]
  omega

theorem twoTo_mul_scale : twoTo 63 * scale = twoTo 1137 := by rw [scale, ← twoTo_add]

theorem twoTo_le_tenTo (k : Nat) : twoTo (3 * k + 1) ≤ tenTo (k + 1) :=
  calc 2 ^ (3 * k + 1) = 8 ^ k * 2 := by rw [Nat.pow_succ, Nat.pow_mul]
    _ ≤ 10 ^ k * 10 := Nat.mul_le_mul (Nat.pow_le_pow_left (by decide) k) (by decide)
    _ = 10 ^ (k + 1) := (Nat.pow_succ 10 k).symm

theorem tenTo_lt_tenTo {a b : Nat} (h : a < b) : tenTo a < tenTo b :=
  Nat.pow_lt_pow_right (by decide) h

theorem tenTo_two : tenTo 2 = 100 := rfl

theorem tenTo_mul_hundred (a : Nat) : tenTo a * 100 = tenTo (a + 2) := (Nat.pow_add 10 a 2).symm

theorem length_toDigits_le {n k : Nat} (hk : 0 < k) (h : n < tenTo k) :
    (Nat.toDigits 10 n).length ≤ k := (Nat.length_toDigits_le_iff (by decide) hk).2 h

/-! ### Finite numbers -/

/-- A number that is not finite beyond the largest finite one. -/
def IsBounded : Double → Prop
  | finite _ units => units ≤ maxUnits
  | _ => True

-- The bounds are numbers of hundreds of digits, which no step below needs to compute.
attribute [local irreducible] twoTo tenTo scale overflowUnits maxUnits

theorem isBounded_ofRatio (negative : Bool) (num den : Nat) :
    (ofRatio negative num den).IsBounded := by
  rw [ofRatio]
  by_cases h : overflowUnits ≤ nearestUnits (num * scale) den
  · rw [if_pos h]
    exact True.intro
  · rw [if_neg h]
    exact nearestUnits_le_maxUnits (Nat.lt_of_not_le h)

theorem isBounded_ofDecimal (negative : Bool) (digits : Nat) (exponent : Int) :
    (ofDecimal negative digits exponent).IsBounded := by
  unfold ofDecimal
  dsimp only
  split
  · exact Nat.zero_le _
  · split
    · exact True.intro
    · split <;> exact isBounded_ofRatio _ _ _

theorem isFinite_ofRatio (negative : Bool) {num den : Nat}
    (h : num * scale < den * (maxUnits + twoTo 2044)) :
    (ofRatio negative num den).isFinite = true := by
  rw [ofRatio, if_neg (Nat.not_le.2 (nearestUnits_lt_overflowUnits h))]
  rfl

/-- An integer of 64 bits is a finite number. -/
theorem exists_ofInt? {n : Int} (h : n.natAbs ≤ twoTo 63) :
    ∃ x, ofInt? n = some x ∧ x.isFinite = true ∧ x.IsBounded := by
  have hfits : n.natAbs * scale < 1 * (maxUnits + twoTo 2044) := by
    have hpos := twoTo_pos 2044
    have hmax := twoTo_le_maxUnits
    calc n.natAbs * scale ≤ twoTo 63 * scale := Nat.mul_le_mul_right _ h
      _ = twoTo 1137 := twoTo_mul_scale
      _ ≤ twoTo 2097 := twoTo_le_twoTo (by omega)
      _ < 1 * (maxUnits + twoTo 2044) := by omega
  have hfinite := isFinite_ofRatio (decide (n < 0)) hfits
  have hbounded := isBounded_ofRatio (decide (n < 0)) n.natAbs 1
  rw [ofInt?]
  cases hx : ofRatio (decide (n < 0)) n.natAbs 1 with
  | finite negative units =>
    rw [hx] at hbounded
    exact ⟨_, rfl, rfl, hbounded⟩
  | nan | infinite =>
    rw [hx] at hfinite
    cases hfinite

/-- Exactly the integers from half a step beyond the largest finite number on have no finite number
next to them. -/
theorem ofInt?_eq_none_iff {n : Int} : ofInt? n = none ↔ twoTo 1024 - twoTo 970 ≤ n.natAbs := by
  have hbound : twoTo 1024 - twoTo 970 ≤ n.natAbs ↔ 1 * (maxUnits + twoTo 2044) ≤ n.natAbs * scale := by
    rw [Nat.one_mul, maxUnits_add_half, Nat.mul_le_mul_right_iff scale_pos]
  rw [hbound, ofInt?, ofRatio]
  by_cases h : 1 * (maxUnits + twoTo 2044) ≤ n.natAbs * scale
  · rw [if_pos (overflowUnits_le_nearestUnits Nat.one_pos h)]
    exact iff_of_true rfl h
  · rw [if_neg (Nat.not_le.2 (nearestUnits_lt_overflowUnits (Nat.lt_of_not_le h)))]
    exact iff_of_false (Option.some_ne_none _) h

theorem cents_lt {units cents : Nat} (hunits : units ≤ maxUnits)
    (hcents : cents ≤ units * 100 / scale + 1) : cents < tenTo 402 := by
  have hlt : units * 100 < twoTo 1024 * 100 * scale := by
    have hmax := Nat.lt_of_le_of_lt hunits maxUnits_lt
    rw [overflowUnits] at hmax
    rw [Nat.mul_right_comm]
    exact Nat.mul_lt_mul_of_pos_right hmax (by decide)
  have hquotient : units * 100 / scale < twoTo 1024 * 100 :=
    (Nat.div_lt_iff_lt_mul scale_pos).2 hlt
  calc cents ≤ twoTo 1024 * 100 := hcents.trans hquotient
    _ ≤ tenTo 342 * 100 := Nat.mul_le_mul_right _ (twoTo_le_tenTo 341)
    _ = tenTo 344 := tenTo_mul_hundred 342
    _ < tenTo 402 := tenTo_lt_tenTo (by omega)

/-- A finite number rounded to two places is finite again. -/
theorem exists_toDouble?_cents {x : Double} (hx : x.isFinite = true) (hbounded : x.IsBounded) :
    ∃ y, (Decimal.ofDoubleCents x).toDouble? = some y ∧ y.isFinite = true := by
  cases x with
  | nan | infinite => cases hx
  | finite negative units =>
    have hunits : units ≤ maxUnits := hbounded
    refine ⟨_, rfl, ?_⟩
    set cents := roundQuotient (units * 100) scale
    have hcents : cents ≤ units * 100 / scale + 1 := roundQuotient_le_succ _ _
    have hfits : cents * scale < tenTo 2 * (maxUnits + twoTo 2044) := by
      have hscale := scale_le
      have hpos := twoTo_pos 2044
      have hback : units * 100 / scale * scale ≤ units * 100 := Nat.div_mul_le_self _ _
      calc cents * scale ≤ (units * 100 / scale + 1) * scale := Nat.mul_le_mul_right _ hcents
        _ = units * 100 / scale * scale + scale := by rw [Nat.add_mul, Nat.one_mul]
        _ < 100 * (maxUnits + twoTo 2044) := by omega
        _ = tenTo 2 * (maxUnits + twoTo 2044) := by rw [tenTo_two]
    have hlength : (Nat.toDigits 10 cents).length ≤ 402 :=
      length_toDigits_le (by decide) (cents_lt hunits hcents)
    unfold ofDecimal
    dsimp only
    split
    · rfl
    · rw [if_neg (by omega)]
      exact isFinite_ofRatio negative hfits

end Double

end TableApi
