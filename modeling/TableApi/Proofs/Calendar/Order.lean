import Mathlib.Data.List.Lex
import Mathlib.Data.String.Basic
import TableApi.Proofs.Calendar.RoundTrip
import TableApi.Store.Binding

/-! The order of moments and of their texts. Days are numbered in the order of years, months and
days, and a numeral of fixed width stands in the order of its number; so the texts of the store,
which begin with the largest unit, stand in the order of the local readings that they spell. -/

namespace TableApi

open Text

/-! ### Texts of fixed width -/

theorem append_lt_append_iff {as bs xs ys : List Char} (h : as.length = bs.length) :
    as ++ xs < bs ++ ys ↔ as < bs ∨ as = bs ∧ xs < ys := by
  induction as generalizing bs with
  | nil =>
    obtain rfl := List.length_eq_zero_iff.1 h.symm
    simp
  | cons a as ih =>
    cases bs with
    | nil => cases h
    | cons b bs =>
      rw [List.cons_append, List.cons_append, List.cons_lt_cons_iff, List.cons_lt_cons_iff,
        ih (Nat.succ.inj h), List.cons.injEq]
      tauto

namespace Text

theorem digitChar_lt_iff {n k : Nat} (hn : n < 10) (hk : k < 10) :
    digitChar n < digitChar k ↔ n < k := by
  have hall : ∀ n < 10, ∀ k < 10, digitChar n < digitChar k ↔ n < k := by decide
  exact hall n hn k hk

theorem length_decimalDigits (width n : Nat) : (decimalDigits width n).length = width := by
  induction width generalizing n with
  | zero => rfl
  | succ width ih => rw [decimalDigits, List.length_append, ih, List.length_singleton]

/-- Numerals of one width are equal only for one number, by induction on the digits from the last
one on. -/
theorem decimalDigits_inj {width n k : Nat} (hn : n < 10 ^ width) (hk : k < 10 ^ width)
    (h : decimalDigits width n = decimalDigits width k) : n = k := by
  induction width generalizing n k with
  | zero => omega
  | succ width ih =>
    rw [Nat.pow_succ] at hn hk
    obtain ⟨hrest, hlast⟩ := List.append_inj' h rfl
    have hquotient := ih (by omega) (by omega) hrest
    have hdigit : ∀ i < 10, ∀ j < 10, digitChar i = digitChar j → i = j := by decide
    have hremainder := hdigit _ (Nat.mod_lt n (by decide)) _ (Nat.mod_lt k (by decide))
      (List.singleton_inj.1 hlast)
    omega

/-- Numerals of one width stand in the order of their numbers. -/
theorem decimalDigits_lt_iff {width n k : Nat} (hn : n < 10 ^ width) (hk : k < 10 ^ width) :
    decimalDigits width n < decimalDigits width k ↔ n < k := by
  induction width generalizing n k with
  | zero => simp [decimalDigits]; omega
  | succ width ih =>
    rw [Nat.pow_succ] at hn hk
    have hfront : n / 10 < 10 ^ width := by omega
    have hfront' : k / 10 < 10 ^ width := by omega
    have hlength : (decimalDigits width (n / 10)).length = (decimalDigits width (k / 10)).length := by
      rw [length_decimalDigits, length_decimalDigits]
    have hsame : decimalDigits width (n / 10) = decimalDigits width (k / 10) ↔ n / 10 = k / 10 :=
      ⟨decimalDigits_inj hfront hfront', fun h => by rw [h]⟩
    rw [decimalDigits, decimalDigits, append_lt_append_iff hlength, ih hfront hfront', hsame,
      List.cons_lt_cons_iff, digitChar_lt_iff (Nat.mod_lt n (by decide)) (Nat.mod_lt k (by decide))]
    simp only [List.lt_irrefl, and_false, or_false]
    omega

theorem decimalDigits_append_lt_iff {width n k : Nat} (hn : n < 10 ^ width) (hk : k < 10 ^ width)
    (xs ys : List Char) : decimalDigits width n ++ xs < decimalDigits width k ++ ys ↔
      n < k ∨ n = k ∧ xs < ys := by
  rw [append_lt_append_iff (by rw [length_decimalDigits, length_decimalDigits]),
    decimalDigits_lt_iff hn hk]
  exact or_congr_right (and_congr_left fun _ => ⟨decimalDigits_inj hn hk, fun h => by rw [h]⟩)

end Text

namespace Calendar

/-! ### Days -/

theorem daysInMonths_mono (year : Nat) {m n : Nat} (h : m ≤ n) :
    daysInMonths year m ≤ daysInMonths year n := by
  induction n with
  | zero =>
    obtain rfl := Nat.le_zero.1 h
    exact Nat.le_refl _
  | succ n ih =>
    rcases Nat.le_succ_iff.1 h with hle | rfl
    · exact (ih hle).trans (Nat.le_add_right _ _)
    · exact Nat.le_refl _

theorem daysInMonths_twelve (year : Nat) :
    daysInMonths year 12 = if isLeap year then 366 else 365 := by
  simp only [daysInMonths, daysInMonth]
  cases isLeap year <;> simp

theorem isLeap_iff (year : Nat) :
    isLeap year = true ↔ 4 ∣ year ∧ (¬ 100 ∣ year ∨ 400 ∣ year) := by
  simp [isLeap, Nat.dvd_iff_mod_eq_zero]

theorem daysBeforeYear_succ {year : Nat} (h : 1 ≤ year) :
    daysBeforeYear (year + 1) = daysBeforeYear year + daysInMonths year 12 := by
  obtain ⟨y, rfl⟩ := Nat.exists_eq_add_of_le' h
  have hcenturies : y / 100 ≤ y / 4 := Nat.div_le_div_left (by decide) (by decide)
  have hfour : 100 ∣ y + 1 → 4 ∣ y + 1 := (Nat.dvd_trans (by decide) ·)
  have hhundred : 400 ∣ y + 1 → 100 ∣ y + 1 := (Nat.dvd_trans (by decide) ·)
  rw [daysInMonths_twelve]
  simp only [isLeap_iff, daysBeforeYear, Nat.add_sub_cancel, Nat.succ_div]
  -- Only which of the three divide the year matters from here on.
  generalize y / 4 = fours at *
  generalize y / 100 = centuries at *
  generalize y / 400 = cycles at *
  by_cases h4 : 4 ∣ y + 1 <;> by_cases h100 : 100 ∣ y + 1 <;> by_cases h400 : 400 ∣ y + 1 <;>
    simp_all <;> omega

theorem daysBeforeYear_mono {y z : Nat} (hy : 1 ≤ y) (h : y ≤ z) :
    daysBeforeYear y ≤ daysBeforeYear z := by
  induction z with
  | zero => omega
  | succ z ih =>
    rcases Nat.le_succ_iff.1 h with hle | rfl
    · rw [daysBeforeYear_succ (hy.trans hle)]
      exact (ih hle).trans (Nat.le_add_right _ _)
    · exact Nat.le_refl _

namespace Date

theorem daysBeforeMonth_add_day_le (d : Date) :
    daysBeforeMonth d.year d.month + d.day ≤ daysInMonths d.year d.month := by
  obtain ⟨-, hmonth, hday⟩ := d.valid
  obtain ⟨m, hm⟩ := Nat.exists_eq_add_of_le' hmonth.1
  rw [hm] at hday ⊢
  exact Nat.add_le_add_left hday.2 _

/-- Earlier years, months of a year and days of a month have smaller numbers. -/
theorem ordinal_lt_of_lt {d e : Date}
    (h : d.year < e.year ∨ d.year = e.year ∧ (d.month < e.month ∨ d.month = e.month ∧ d.day < e.day)) :
    d.ordinal < e.ordinal := by
  have hd := d.daysBeforeMonth_add_day_le
  have hday := e.valid.2.2.1
  unfold ordinal
  rcases h with hyear | ⟨hyear, hmonth | ⟨hmonth, hless⟩⟩
  · -- The year of the first date ends before the other year begins.
    have hwithin := daysInMonths_mono d.year d.valid.2.1.2
    have hends := daysBeforeYear_succ d.valid.1.1
    have hbegins := daysBeforeYear_mono (Nat.le_add_left 1 d.year) hyear
    omega
  · -- The month of the first date ends before the other month begins.
    have hwithin : daysInMonths e.year d.month ≤ daysBeforeMonth e.year e.month :=
      daysInMonths_mono e.year (by omega)
    rw [hyear] at hd ⊢
    omega
  · rw [hyear, hmonth]
    omega

theorem ordinal_lt_iff {d e : Date} : d.ordinal < e.ordinal ↔
    d.year < e.year ∨ d.year = e.year ∧ (d.month < e.month ∨ d.month = e.month ∧ d.day < e.day) := by
  refine ⟨fun h => ?_, ordinal_lt_of_lt⟩
  by_contra hnot
  by_cases hsame : d.year = e.year ∧ d.month = e.month ∧ d.day = e.day
  · unfold ordinal at h
    rw [hsame.1, hsame.2.1, hsame.2.2] at h
    exact Nat.lt_irrefl _ h
  · have hgreater : e.ordinal < d.ordinal := ordinal_lt_of_lt (by omega)
    omega

theorem ordinal_inj {d e : Date} (h : d.ordinal = e.ordinal) : d = e := by
  have hless : ¬ d.ordinal < e.ordinal := by omega
  have hgreater : ¬ e.ordinal < d.ordinal := by omega
  rw [ordinal_lt_iff] at hless hgreater
  obtain ⟨year, month, day, valid⟩ := d
  obtain ⟨year', month', day', valid'⟩ := e
  simp only at hless hgreater
  obtain ⟨rfl, rfl, rfl⟩ : year = year' ∧ month = month' ∧ day = day' := by omega
  rfl

end Date

namespace TimeOfDay

theorem micros_lt_day (t : TimeOfDay) : t.micros < 86400000000 := by
  have h := t.valid
  unfold micros seconds
  omega

theorem micros_lt_iff {t u : TimeOfDay} : t.micros < u.micros ↔
    t.hour < u.hour ∨ t.hour = u.hour ∧ (t.minute < u.minute ∨ t.minute = u.minute ∧
      (t.second < u.second ∨ t.second = u.second ∧ t.microsecond < u.microsecond)) := by
  have ht := t.valid
  have hu := u.valid
  unfold micros seconds
  omega

theorem micros_inj {t u : TimeOfDay} (h : t.micros = u.micros) : t = u := by
  obtain ⟨hour, minute, second, microsecond, valid⟩ := t
  obtain ⟨hour', minute', second', microsecond', valid'⟩ := u
  simp only [micros, seconds] at h
  obtain ⟨rfl, rfl, rfl, rfl⟩ : hour = hour' ∧ minute = minute' ∧ second = second' ∧
      microsecond = microsecond' := by omega
  rfl

end TimeOfDay

/-! ### Moments -/

namespace Moment

/-- Moments are read in the order of their dates and, on one date, of their times. -/
theorem localMicros_lt_iff {m n : Moment} : m.localMicros < n.localMicros ↔
    m.date.ordinal < n.date.ordinal ∨
      m.date.ordinal = n.date.ordinal ∧ m.time.micros < n.time.micros := by
  have hm := m.time.micros_lt_day
  have hn := n.time.micros_lt_day
  unfold localMicros
  omega

theorem of_localMicros_eq {m n : Moment} (h : m.localMicros = n.localMicros) :
    m.date = n.date ∧ m.time = n.time := by
  have hm := m.time.micros_lt_day
  have hn := n.time.micros_lt_day
  unfold localMicros at h
  obtain ⟨hdate, htime⟩ : m.date.ordinal = n.date.ordinal ∧ m.time.micros = n.time.micros := by
    omega
  exact ⟨Date.ordinal_inj hdate, TimeOfDay.micros_inj htime⟩

end Moment

end Calendar

/-! ### Stored texts -/

namespace ParameterType

open Calendar

theorem toList_momentText (m : Moment) : (momentText m).toList =
    decimalDigits 4 m.date.year ++ '-' :: (decimalDigits 2 m.date.month ++ '-' ::
      (decimalDigits 2 m.date.day ++ ' ' :: (decimalDigits 2 m.time.hour ++ ':' ::
        (decimalDigits 2 m.time.minute ++ ':' :: (decimalDigits 2 m.time.second ++ '.' ::
          decimalDigits 6 m.time.microsecond))))) := by
  simp [momentText, Date.text, TimeOfDay.clockText, padded, String.toList_append]

/-- The stored texts of moments stand in the order of their local readings. -/
theorem momentText_lt_iff (m n : Moment) :
    momentText m < momentText n ↔ m.localMicros < n.localMicros := by
  have hm := m.time.valid
  have hn := n.time.valid
  rw [Moment.localMicros_lt_iff, Date.ordinal_lt_iff, TimeOfDay.micros_lt_iff,
    String.lt_iff_toList_lt, toList_momentText, toList_momentText,
    decimalDigits_append_lt_iff m.date.year_lt n.date.year_lt]
  simp only [List.cons_lt_cons_iff, Char.lt_irrefl, false_or, true_and,
    decimalDigits_append_lt_iff m.date.month_lt n.date.month_lt,
    decimalDigits_append_lt_iff m.date.day_lt n.date.day_lt,
    decimalDigits_append_lt_iff (show m.time.hour < 10 ^ 2 by omega)
      (show n.time.hour < 10 ^ 2 by omega),
    decimalDigits_append_lt_iff (show m.time.minute < 10 ^ 2 by omega)
      (show n.time.minute < 10 ^ 2 by omega),
    decimalDigits_append_lt_iff (show m.time.second < 10 ^ 2 by omega)
      (show n.time.second < 10 ^ 2 by omega),
    decimalDigits_lt_iff (show m.time.microsecond < 10 ^ 6 by omega)
      (show n.time.microsecond < 10 ^ 6 by omega)]
  have hdate : m.date.ordinal = n.date.ordinal ↔
      m.date.year = n.date.year ∧ m.date.month = n.date.month ∧ m.date.day = n.date.day :=
    ⟨fun h => by rw [Date.ordinal_inj h]; exact ⟨rfl, rfl, rfl⟩,
      fun ⟨hyear, hmonth, hday⟩ => by rw [Date.ordinal, Date.ordinal, hyear, hmonth, hday]⟩
  rw [hdate]
  simp only [and_or_left, or_assoc, and_assoc]

/-- The stored texts of moments compare as their local readings do. -/
theorem compare_momentText (m n : Moment) :
    compare (momentText m) (momentText n) = compare m.localMicros n.localMicros := by
  rcases Int.lt_trichotomy m.localMicros n.localMicros with h | h | h
  · rw [compare_lt_iff_lt.2 h, compare_lt_iff_lt.2 ((momentText_lt_iff m n).2 h)]
  · have hsame : momentText m = momentText n := by
      obtain ⟨hdate, htime⟩ := Moment.of_localMicros_eq h
      rw [momentText, momentText, hdate, htime]
    rw [h, hsame, compare_eq_iff_eq.2 rfl, compare_eq_iff_eq.2 rfl]
  · rw [compare_gt_iff_gt.2 h, compare_gt_iff_gt.2 ((momentText_lt_iff n m).2 h)]

end ParameterType

end TableApi
