import Mathlib.Algebra.Group.Nat.Defs
import TableApi.Calendar.Reader
import TableApi.Proofs.Text.Ends

/-! Reading back what is written. The text of a moment is a date, a separator, a clock reading and
perhaps an offset, each of them made of numerals of a fixed width. A numeral of a fixed width gives
its number back and leaves what follows it, so every part of the text is read up to the next one. -/

namespace TableApi.Calendar

open Text

/-! ### Bytes -/

theorem utf8Bytes_of_lt {c : Char} (h : c.toNat < 128) : utf8Bytes c = [c.toNat] := by
  have hv : c.val.toNat ≤ 127 := by
    have hc : c.val.toNat = c.toNat := rfl
    omega
  have hbyte : (UInt8.ofNat c.val.toNat).toNat = c.toNat := by
    rw [UInt8.toNat_ofNat', Nat.mod_eq_of_lt (by omega)]
    rfl
  simp only [utf8Bytes, String.utf8EncodeChar, hv, if_true, List.map_cons, List.map_nil, hbyte]

theorem bytesOf_append (s t : String) : bytesOf (s ++ t) = bytesOf s ++ bytesOf t := by
  simp [bytesOf]

/-! ### Numerals -/

def digitBytes : (width : Nat) → Nat → List Nat
  | 0, _ => []
  | width + 1, n => digitBytes width (n / 10) ++ [48 + n % 10]

theorem length_digitBytes (width n : Nat) : (digitBytes width n).length = width := by
  induction width generalizing n with
  | zero => rfl
  | succ width ih => simp [digitBytes, ih]

theorem isDigitByte_of_mem {w n b : Nat} (h : b ∈ digitBytes w n) : isDigitByte b = true := by
  induction w generalizing n with
  | zero => cases h
  | succ w ih =>
    rcases List.mem_append.1 h with hfront | hlast
    · exact ih hfront
    · rw [List.mem_singleton.1 hlast]
      simp only [isDigitByte, Bool.and_eq_true, decide_eq_true_eq]
      omega

theorem toNat_digitChar {n : Nat} (h : n < 10) : (digitChar n).toNat = 48 + n := by
  have hall : ∀ k < 10, (digitChar k).toNat = 48 + k := by decide
  exact hall n h

theorem bytesOf_padded (width n : Nat) : bytesOf (padded width n) = digitBytes width n := by
  unfold bytesOf padded
  rw [String.toList_ofList]
  induction width generalizing n with
  | zero => rfl
  | succ width ih =>
    have hdigit : (digitChar (n % 10)).toNat = 48 + n % 10 :=
      toNat_digitChar (Nat.mod_lt _ (by decide))
    rw [decimalDigits, digitBytes, List.flatMap_append, ih, List.flatMap_singleton,
      utf8Bytes_of_lt (by omega), hdigit]

theorem takeNumber?_succ (count n : Nat) (cs : List Nat) :
    takeNumber? (count + 1) n cs =
      (takeNumber? count n cs).bind fun (n, cs) => takeNumber? 1 n cs := by
  induction count generalizing n cs with
  | zero => rfl
  | succ count ih =>
    cases cs with
    | nil => rfl
    | cons c cs =>
      rw [takeNumber?, takeNumber?]
      split
      · exact ih _ _
      · rfl

theorem takeNumber?_digitBytes (width before n : Nat) (rest : List Nat) :
    takeNumber? width before (digitBytes width n ++ rest) =
      some (before * 10 ^ width + n % 10 ^ width, rest) := by
  induction width generalizing n rest with
  | zero => simp [takeNumber?, digitBytes, Nat.mod_one]
  | succ width ih =>
    have hdigit : isDigitByte (48 + n % 10) = true :=
      isDigitByte_of_mem (w := 1) (n := n) (by simp [digitBytes])
    have hvalue : (before * 10 ^ width + n / 10 % 10 ^ width) * 10 + n % 10 =
        before * 10 ^ (width + 1) + n % 10 ^ (width + 1) := by
      rw [Nat.pow_succ', Nat.mod_mul, Nat.add_mul, Nat.mul_assoc, Nat.mul_comm (10 ^ width) 10]
      omega
    rw [takeNumber?_succ, digitBytes, List.append_assoc, ih, Option.bind_some]
    simp only [List.singleton_append, takeNumber?, hdigit, if_true, Nat.add_sub_cancel_left, hvalue]

theorem takeNumber?_of_lt {width n : Nat} (h : n < 10 ^ width) (rest : List Nat) :
    takeNumber? width 0 (digitBytes width n ++ rest) = some (n, rest) := by
  rw [takeNumber?_digitBytes, Nat.zero_mul, Nat.zero_add, Nat.mod_eq_of_lt h]

/-! ### Dates -/

namespace Date

def textBytes (d : Date) : List Nat :=
  digitBytes 4 d.year ++ 45 :: (digitBytes 2 d.month ++ 45 :: digitBytes 2 d.day)

theorem bytesOf_text (d : Date) : bytesOf d.text = d.textBytes := by
  have hhyphen : bytesOf "-" = [45] := by decide
  simp only [text, bytesOf_append, bytesOf_padded, hhyphen, textBytes, List.append_assoc,
    List.cons_append, List.nil_append]

theorem length_textBytes (d : Date) : d.textBytes.length = 10 := by
  simp [textBytes, length_digitBytes]

theorem make?_self (d : Date) : make? d.year d.month d.day = some d := dif_pos d.valid

theorem year_lt (d : Date) : d.year < 10 ^ 4 := by
  have h := d.valid
  omega

theorem month_lt (d : Date) : d.month < 10 ^ 2 := by
  have h := d.valid
  omega

theorem daysInMonth_le (year month : Nat) : daysInMonth year month ≤ 31 := by
  unfold daysInMonth
  split
  · split <;> decide
  all_goals decide

theorem day_lt (d : Date) : d.day < 10 ^ 2 := by
  have h := d.valid
  have hmonth := daysInMonth_le d.year d.month
  omega

end Date

theorem peek_digitBytes_two (n : Nat) (rest : List Nat) :
    isDigitByte (peek (digitBytes 2 n ++ rest)) = true :=
  isDigitByte_of_mem (w := 2) (n := n) (by simp [digitBytes, peek])

theorem isDigitByte_iff {b : Nat} : isDigitByte b = true ↔ 48 ≤ b ∧ b ≤ 57 := by
  simp [isDigitByte]

theorem readDateBytes?_textBytes (d : Date) (rest : List Nat) (length : Nat) :
    readDateBytes? (d.textBytes ++ rest) length = some d := by
  have hweek : ∀ cs, (digitBytes 2 d.month ++ cs).headD 0 ≠ 87 := by
    intro cs h
    have hdigit := isDigitByte_iff.1 (peek_digitBytes_two d.month cs)
    rw [peek, h] at hdigit
    omega
  simp only [readDateBytes?, Date.textBytes, List.append_assoc, List.cons_append,
    takeNumber?_of_lt d.year_lt, Option.bind_eq_bind, Option.bind_some, peek, List.headD_cons,
    if_true, List.drop_one, List.tail_cons, hweek, if_false, takeNumber?_of_lt d.month_lt, hyphen?,
    takeNumber?_of_lt d.day_lt, Date.make?_self]

theorem dateLength_textBytes (d : Date) (rest : List Nat) :
    dateLength (d.textBytes ++ rest) = 10 := by
  have hweek : 48 + d.month / 10 % 10 ≠ 87 := by omega
  simp [dateLength, Date.textBytes, digitBytes, peek, hweek]

/-! ### Clock readings -/

def fractionBytes (microsecond : Nat) : List Nat :=
  if microsecond = 0 then [] else 46 :: digitBytes 6 microsecond

theorem bytesOf_fractionText (microsecond : Nat) :
    bytesOf (TimeOfDay.fractionText microsecond) = fractionBytes microsecond := by
  have hpoint : bytesOf "." = [46] := by decide
  unfold TimeOfDay.fractionText fractionBytes
  split
  · rfl
  · rw [bytesOf_append, hpoint, bytesOf_padded, List.singleton_append]

def clockBytes (hour minute second microsecond : Nat) : List Nat :=
  digitBytes 2 hour ++ 58 :: (digitBytes 2 minute ++ 58 :: (digitBytes 2 second ++
    fractionBytes microsecond))

variable {hour minute second microsecond : Nat}

theorem length_clockBytes :
    (clockBytes hour minute second microsecond).length = if microsecond = 0 then 8 else 15 := by
  unfold clockBytes fractionBytes
  split <;> simp [length_digitBytes]

theorem readClock?_colon (hhour : hour < 10 ^ 2) {colons? : Option Bool}
    (hcolons : colons? = none ∨ colons? = some true) (parts : Nat) (values rest : List Nat)
    {length : Nat} (hlength : 3 < length) :
    readClock? (parts + 1) colons? values (digitBytes 2 hour ++ 58 :: rest) length =
      readClock? parts (some true) (values ++ [hour]) rest (length - 3) := by
  rcases hcolons with rfl | rfl <;>
    simp [readClock?, takeNumber?_of_lt hhour, peek, Nat.not_le.2 hlength]

theorem readClock?_last (hsecond : second < 10 ^ 2) (parts : Nat) (colons? : Option Bool)
    (values rest : List Nat) :
    readClock? (parts + 1) colons? values (digitBytes 2 second ++ rest) 2 =
      some ⟨values ++ [second], 0, peek rest != 0⟩ := by
  simp [readClock?, takeNumber?_of_lt hsecond]

theorem readClock?_fraction (hsecond : second < 10 ^ 2) (hmicro : microsecond < 10 ^ 6)
    (parts : Nat) (values rest : List Nat) :
    readClock? (parts + 1) (some true) values
        (digitBytes 2 second ++ 46 :: (digitBytes 6 microsecond ++ rest)) 9 =
      some ⟨values ++ [second], microsecond, peek (rest.dropWhile isDigitByte) != 0⟩ := by
  simp [readClock?, readFraction?, takeNumber?_of_lt hsecond, takeNumber?_of_lt hmicro, peek,
    Number.tenTo]

/-- A clock reading is read back, and nothing is left over when nothing follows it. -/
theorem readClock?_clockBytes (hhour : hour < 10 ^ 2) (hminute : minute < 10 ^ 2)
    (hsecond : second < 10 ^ 2) (hmicro : microsecond < 10 ^ 6) (rest : List Nat) :
    ∃ leftOver, readClock? 3 none [] (clockBytes hour minute second microsecond ++ rest)
        (clockBytes hour minute second microsecond).length =
          some ⟨[hour, minute, second], microsecond, leftOver⟩ ∧
      (rest = [] → leftOver = false) := by
  rw [length_clockBytes, clockBytes, fractionBytes]
  simp only [List.append_assoc, List.cons_append]
  by_cases hzero : microsecond = 0
  · rw [if_pos hzero, if_pos hzero, hzero, List.nil_append,
      readClock?_colon hhour (.inl rfl) _ _ _ (by decide),
      readClock?_colon hminute (.inr rfl) _ _ _ (by decide), readClock?_last hsecond]
    refine ⟨_, rfl, ?_⟩
    rintro rfl
    rfl
  · rw [if_neg hzero, if_neg hzero, List.cons_append,
      readClock?_colon hhour (.inl rfl) _ _ _ (by decide),
      readClock?_colon hminute (.inr rfl) _ _ _ (by decide), readClock?_fraction hsecond hmicro]
    refine ⟨_, rfl, ?_⟩
    rintro rfl
    rfl

theorem readClock?_minutes (hhour : hour < 10 ^ 2) (hminute : minute < 10 ^ 2) :
    readClock? 3 none [] (digitBytes 2 hour ++ 58 :: digitBytes 2 minute) 5 =
      some ⟨[hour, minute], 0, false⟩ := by
  have hlast := readClock?_last hminute 1 (some true) [hour] []
  rw [List.append_nil] at hlast
  rw [readClock?_colon hhour (.inl rfl) _ _ _ (by decide)]
  exact hlast

namespace TimeOfDay

def textBytes (t : TimeOfDay) : List Nat := clockBytes t.hour t.minute t.second t.microsecond

theorem bytesOf_text (t : TimeOfDay) : bytesOf t.text = t.textBytes := by
  have hcolon : bytesOf ":" = [58] := by decide
  simp only [text, clockText, bytesOf_append, bytesOf_padded, bytesOf_fractionText, hcolon,
    textBytes, clockBytes, List.append_assoc, List.cons_append, List.nil_append]

theorem readClock?_textBytes (t : TimeOfDay) (rest : List Nat) :
    ∃ leftOver, readClock? 3 none [] (t.textBytes ++ rest) t.textBytes.length =
        some ⟨[t.hour, t.minute, t.second], t.microsecond, leftOver⟩ ∧
      (rest = [] → leftOver = false) := by
  obtain ⟨hhour, hminute, hsecond, hmicro⟩ := t.valid
  exact readClock?_clockBytes (by omega) (by omega) (by omega) (by omega) rest

theorem make?_self (t : TimeOfDay) : make? t.hour t.minute t.second t.microsecond = some t :=
  dif_pos t.valid

end TimeOfDay

/-! ### Offsets -/

namespace Offset

variable (o : Offset)

def mark : Nat := if o.micros < 0 then 45 else 43

def seconds : Nat := o.micros.natAbs / 1000000

def fraction : Nat := o.micros.natAbs % 1000000

/-- The bytes behind the sign. -/
def clock : List Nat :=
  if o.seconds % 60 = 0 ∧ o.fraction = 0 then
    digitBytes 2 (o.seconds / 3600) ++ 58 :: digitBytes 2 (o.seconds / 60 % 60)
  else clockBytes (o.seconds / 3600) (o.seconds / 60 % 60) (o.seconds % 60) o.fraction

theorem bytesOf_text : bytesOf o.text = o.mark :: o.clock := by
  have hcolon : bytesOf ":" = [58] := by decide
  have hsign : bytesOf (if o.micros < 0 then "-" else "+") = [o.mark] := by
    unfold mark
    split <;> decide
  have hclock : o.text = (if o.micros < 0 then "-" else "+") ++ padded 2 (o.seconds / 3600) ++ ":" ++
      padded 2 (o.seconds / 60 % 60) ++ (if o.seconds % 60 = 0 ∧ o.fraction = 0 then ""
        else ":" ++ padded 2 (o.seconds % 60) ++ TimeOfDay.fractionText o.fraction) := rfl
  simp only [hclock, bytesOf_append, hsign, bytesOf_padded, hcolon, clock]
  split
  · simp [bytesOf]
  · simp only [bytesOf_append, bytesOf_padded, hcolon, bytesOf_fractionText, clockBytes,
      List.append_assoc, List.cons_append, List.nil_append]

theorem seconds_lt : o.seconds < 86400 := by
  have h := o.valid
  unfold seconds
  omega

/-- What stands behind the sign is read as the size of the offset. -/
theorem exists_readClock?_clock :
    ∃ r : ClockReading, readClock? 3 none [] o.clock o.clock.length = some r ∧
      r.leftOver = false ∧ r.micros = o.micros.natAbs := by
  have hseconds := o.seconds_lt
  have hsize : o.seconds * 1000000 + o.fraction = o.micros.natAbs := by
    unfold seconds fraction
    omega
  have hfraction : o.fraction < 10 ^ 6 := Nat.mod_lt _ (by decide)
  by_cases hwhole : o.seconds % 60 = 0 ∧ o.fraction = 0
  · refine ⟨⟨[o.seconds / 3600, o.seconds / 60 % 60], 0, false⟩, ?_, rfl, ?_⟩
    · rw [clock, if_pos hwhole, List.length_append, List.length_cons, length_digitBytes,
        length_digitBytes]
      exact readClock?_minutes (by omega) (by omega)
    · simp only [ClockReading.micros, ClockReading.part, List.getD_cons_zero, List.getD_cons_succ,
        List.getD_nil]
      omega
  · have hhour : o.seconds / 3600 < 10 ^ 2 := by omega
    have hminute : o.seconds / 60 % 60 < 10 ^ 2 := by omega
    have hsecond : o.seconds % 60 < 10 ^ 2 := by omega
    obtain ⟨leftOver, hread, hleft⟩ := readClock?_clockBytes hhour hminute hsecond hfraction []
    rw [List.append_nil] at hread
    refine ⟨_, by rw [clock, if_neg hwhole]; exact hread, hleft rfl, ?_⟩
    simp only [ClockReading.micros, ClockReading.part, List.getD_cons_zero, List.getD_cons_succ]
    omega

theorem make?_natAbs :
    make? (if o.mark = 45 then -(o.micros.natAbs : Int) else o.micros.natAbs) = some o := by
  have hmicros : (if o.mark = 45 then -(o.micros.natAbs : Int) else o.micros.natAbs) =
      o.micros := by
    unfold mark
    by_cases hneg : o.micros < 0
    · rw [if_pos hneg, if_pos rfl]
      omega
    · rw [if_neg hneg, if_neg (by decide)]
      omega
  rw [hmicros]
  exact dif_pos o.valid

theorem mark_eq : o.mark = 45 ∨ o.mark = 43 := by
  unfold mark
  split
  · exact .inl rfl
  · exact .inr rfl

theorem readOffset?_text : readOffset? (o.mark :: o.clock) = some o := by
  obtain ⟨r, hread, hleft, hmicros⟩ := o.exists_readClock?_clock
  have hmake := o.make?_natAbs
  rw [← hmicros] at hmake
  rcases o.mark_eq with hmark | hmark <;> rw [hmark] at hmake ⊢ <;>
    simpa [readOffset?, hread, hleft] using hmake

end Offset

/-! ### Moments -/

theorem isOffsetMark_of_isDigitByte {b : Nat} (h : isDigitByte b = true) :
    isOffsetMark b = false := by
  have hdigit := isDigitByte_iff.1 h
  simp only [isOffsetMark, Bool.or_eq_false_iff, decide_eq_false_iff_not]
  omega

/-- No byte of a clock reading begins an offset. -/
theorem isOffsetMark_of_mem_clockBytes {b : Nat}
    (h : b ∈ clockBytes hour minute second microsecond) : isOffsetMark b = false := by
  have hcases : isDigitByte b = true ∨ b = 58 ∨ b = 46 := by
    simp only [clockBytes, List.mem_append, List.mem_cons] at h
    rcases h with h | rfl | h | rfl | h | h
    · exact .inl (isDigitByte_of_mem h)
    · exact .inr (.inl rfl)
    · exact .inl (isDigitByte_of_mem h)
    · exact .inr (.inl rfl)
    · exact .inl (isDigitByte_of_mem h)
    · unfold fractionBytes at h
      split at h
      · cases h
      · rcases List.mem_cons.1 h with rfl | h
        · exact .inr (.inr rfl)
        · exact .inl (isDigitByte_of_mem h)
  rcases hcases with h | rfl | rfl
  · exact isOffsetMark_of_isDigitByte h
  · rfl
  · rfl

def offsetBytes : Option Offset → List Nat
  | none => []
  | some o => o.mark :: o.clock

theorem bytesOf_offsetText (offset? : Option Offset) :
    bytesOf ((offset?.map Offset.text).getD "") = offsetBytes offset? := by
  cases offset? with
  | none => rfl
  | some o => exact o.bytesOf_text

theorem offsetStart_textBytes (t : TimeOfDay) (offset? : Option Offset) :
    offsetStart (t.textBytes ++ offsetBytes offset?) = t.textBytes.length := by
  have hclock : ∀ b ∈ t.textBytes, (!isOffsetMark b) = true := by
    intro b hb
    rw [isOffsetMark_of_mem_clockBytes hb]
    rfl
  have htail : (offsetBytes offset?).takeWhile (fun b => !isOffsetMark b) = [] := by
    cases offset? with
    | none => rfl
    | some o => rcases o.mark_eq with hmark | hmark <;> simp [offsetBytes, hmark, isOffsetMark]
  rw [offsetStart, List.takeWhile_append_of_pos hclock, htail, List.append_nil]

theorem readTime?_textBytes (t : TimeOfDay) (offset? : Option Offset) :
    readTime? (t.textBytes ++ offsetBytes offset?) = some (t, offset?) := by
  obtain ⟨leftOver, hread, hleft⟩ := t.readClock?_textBytes (offsetBytes offset?)
  have htime : (⟨[t.hour, t.minute, t.second], t.microsecond, leftOver⟩ : ClockReading).toTime? =
      some t := t.make?_self
  unfold readTime?
  simp only [offsetStart_textBytes, hread, Option.bind_eq_bind, Option.bind_some, List.drop_left]
  cases offset? with
  | none =>
    obtain rfl := hleft rfl
    simp [offsetBytes, htime]
  | some o => simp [offsetBytes, o.readOffset?_text, htime]

/-- A text that is a date, one byte and a time of day is read as the moment of both. -/
theorem readMoment?_of_readTime? {s : String} {d : Date} {b : Nat} {rest : List Nat}
    {t : TimeOfDay} {offset? : Option Offset} (hs : bytesOf s = d.textBytes ++ b :: rest)
    (hb : b < 0x80) (ht : readTime? rest = some (t, offset?)) :
    readMoment? s = some ⟨d, t, offset?⟩ := by
  have hlength : (d.textBytes ++ b :: rest).length = 11 + rest.length := by
    rw [List.length_append, Date.length_textBytes, List.length_cons]
    omega
  have hrest : (d.textBytes ++ b :: rest).drop 10 = b :: rest := List.drop_left' d.length_textBytes
  have hskip : dropCharacter (b :: rest) = rest := by simp [dropCharacter, peek, hb]
  unfold readMoment?
  simp only [hs, dateLength_textBytes, readDateBytes?_textBytes, Option.bind_eq_bind,
    Option.bind_some, hrest, hskip, ht]
  rw [if_neg (by omega), if_neg (by omega)]

/-- A moment is read back, whatever single byte separates date and time. -/
theorem readMoment?_textWith {separator : String} {b : Nat} (hseparator : bytesOf separator = [b])
    (hb : b < 0x80) (m : Moment) : readMoment? (m.textWith separator) = some m := by
  have hbytes : bytesOf (m.textWith separator) =
      m.date.textBytes ++ b :: (m.time.textBytes ++ offsetBytes m.offset?) := by
    rw [Moment.textWith, bytesOf_append, bytesOf_append, bytesOf_append, Date.bytesOf_text,
      hseparator, TimeOfDay.bytesOf_text, bytesOf_offsetText, List.append_assoc, List.append_assoc,
      List.singleton_append]
  exact readMoment?_of_readTime? hbytes hb (readTime?_textBytes m.time m.offset?)

theorem readDate?_text (d : Date) : readDate? d.text = some d := by
  have hread := readDateBytes?_textBytes d [] 10
  rw [List.append_nil] at hread
  simp only [readDate?, Date.bytesOf_text, Date.length_textBytes, hread]
  rfl

/-- The bytes of a time of day with all six digits of its fraction, also where that is zero. -/
def TimeOfDay.fullBytes (t : TimeOfDay) : List Nat :=
  digitBytes 2 t.hour ++ 58 :: (digitBytes 2 t.minute ++ 58 :: (digitBytes 2 t.second ++
    46 :: digitBytes 6 t.microsecond))

theorem readTime?_fullBytes (t : TimeOfDay) : readTime? t.fullBytes = some (t, none) := by
  obtain ⟨hhour, hminute, hsecond, hmicro⟩ := t.valid
  have hmarks : ∀ b ∈ t.fullBytes, (!isOffsetMark b) = true := by
    intro b hb
    have hcases : isDigitByte b = true ∨ b = 58 ∨ b = 46 := by
      simp only [TimeOfDay.fullBytes, List.mem_append, List.mem_cons] at hb
      rcases hb with h | rfl | h | rfl | h | rfl | h
      all_goals first | exact .inl (isDigitByte_of_mem h) | simp
    rcases hcases with h | rfl | rfl
    · rw [isOffsetMark_of_isDigitByte h]
      rfl
    · rfl
    · rfl
  have hstart : offsetStart t.fullBytes = t.fullBytes.length := by
    rw [offsetStart, List.takeWhile_eq_self_iff.2 hmarks]
  have hlength : t.fullBytes.length = 15 := by simp [TimeOfDay.fullBytes, length_digitBytes]
  have hclock : readClock? 3 none [] t.fullBytes 15 =
      some ⟨[t.hour, t.minute, t.second], t.microsecond, false⟩ := by
    have htwo : t.second < 10 ^ 2 := by omega
    have hsix : t.microsecond < 10 ^ 6 := by omega
    have hfraction := readClock?_fraction htwo hsix 0 [t.hour, t.minute] []
    rw [List.append_nil] at hfraction
    rw [TimeOfDay.fullBytes, readClock?_colon (by omega) (.inl rfl) _ _ _ (by decide),
      readClock?_colon (by omega) (.inr rfl) _ _ _ (by decide)]
    exact hfraction
  have htime : (⟨[t.hour, t.minute, t.second], t.microsecond, false⟩ : ClockReading).toTime? =
      some t := t.make?_self
  unfold readTime?
  rw [hlength] at hstart
  simp [hstart, hclock, htime, hlength]

/-! ### Characters -/

theorem endsSolid_padded (width n : Nat) : EndsSolid (padded (width + 1) n) := by
  have hall : ∀ k < 10, isBlank (digitChar k) = false := by decide
  refine ⟨digitChar (n % 10), ?_, hall _ (Nat.mod_lt _ (by decide))⟩
  rw [padded, String.toList_ofList, decimalDigits, List.getLast?_concat]

theorem TimeOfDay.endsSolid_clock {s : String} (h : EndsSolid s) (microsecond : Nat) :
    EndsSolid (s ++ fractionText microsecond) := by
  unfold fractionText
  split
  · rwa [String.append_empty]
  · exact ((endsSolid_padded 5 microsecond).append ".").append s

theorem TimeOfDay.endsSolid_text (t : TimeOfDay) : EndsSolid t.text :=
  endsSolid_clock ((endsSolid_padded 1 t.second).append _) t.microsecond

theorem Offset.endsSolid_text (o : Offset) : EndsSolid o.text := by
  unfold Offset.text
  generalize (if o.micros < 0 then "-" else "+") = sign
  simp only
  split
  · rw [String.append_empty]
    exact (endsSolid_padded 1 _).append _
  · exact (TimeOfDay.endsSolid_clock ((endsSolid_padded 1 _).append ":") _).append _

theorem Date.endsSolid_text (d : Date) : EndsSolid d.text := (endsSolid_padded 1 d.day).append _

theorem Date.strip_append {d : Date} {rest : String} (h : EndsSolid (d.text ++ rest)) :
    strip (d.text ++ rest) = d.text ++ rest := by
  have hall : ∀ k < 10, isBlank (digitChar k) = false := by decide
  have hfirst : ∃ cs, (d.text ++ rest).toList = digitChar (d.year / 10 / 10 / 10 % 10) :: cs := by
    simp only [text, padded, decimalDigits, String.toList_append, String.toList_ofList,
      List.nil_append, List.cons_append, List.append_assoc]
    exact ⟨_, rfl⟩
  obtain ⟨cs, hcs⟩ := hfirst
  exact strip_eq_self hcs (hall _ (Nat.mod_lt _ (by decide))) h

theorem Date.strip_text (d : Date) : strip d.text = d.text := by
  have h : EndsSolid (d.text ++ "") := by
    rw [String.append_empty]
    exact d.endsSolid_text
  have hstrip := strip_append h
  rwa [String.append_empty] at hstrip

namespace Moment

theorem endsSolid_textWith (m : Moment) (separator : String) :
    EndsSolid (m.textWith separator) := by
  unfold textWith
  cases m.offset? with
  | none =>
    rw [Option.map_none, Option.getD_none, String.append_empty]
    exact m.time.endsSolid_text.append _
  | some o => exact o.endsSolid_text.append _

theorem strip_textWith (m : Moment) (separator : String) :
    strip (m.textWith separator) = m.textWith separator := by
  have hsolid := m.endsSolid_textWith separator
  rw [textWith, String.append_assoc, String.append_assoc] at hsolid ⊢
  exact Date.strip_append hsolid

end Moment

/-- A kind of characters that has the digits and the marks of dates, times and offsets. -/
structure Spells (p : Char → Bool) : Prop where
  digit : ∀ k < 10, p (digitChar k) = true
  hyphen : p '-' = true
  colon : p ':' = true
  point : p '.' = true
  plus : p '+' = true

instance (p : Char → Bool) : Decidable (Spells p) :=
  decidable_of_iff ((∀ k < 10, p (digitChar k) = true) ∧ p '-' = true ∧ p ':' = true ∧
      p '.' = true ∧ p '+' = true)
    ⟨fun ⟨h₁, h₂, h₃, h₄, h₅⟩ => ⟨h₁, h₂, h₃, h₄, h₅⟩,
      fun h => ⟨h.digit, h.hyphen, h.colon, h.point, h.plus⟩⟩

def MadeOf (p : Char → Bool) (s : String) : Prop := ∀ c ∈ s.toList, p c = true

section MadeOf

variable {p : Char → Bool}

theorem madeOf_empty : MadeOf p "" := nofun

theorem madeOf_singleton {c : Char} (h : p c = true) : MadeOf p (String.singleton c) := by
  intro d hd
  rw [String.toList_singleton, List.mem_singleton] at hd
  rwa [hd]

theorem MadeOf.append {s t : String} (hs : MadeOf p s) (ht : MadeOf p t) : MadeOf p (s ++ t) := by
  intro c hc
  rw [String.toList_append] at hc
  rcases List.mem_append.1 hc with h | h
  · exact hs c h
  · exact ht c h

theorem madeOf_padded (h : ∀ k < 10, p (digitChar k) = true) (width n : Nat) :
    MadeOf p (padded width n) := by
  intro c hc
  rw [padded, String.toList_ofList] at hc
  induction width generalizing n with
  | zero => cases hc
  | succ width ih =>
    rcases List.mem_append.1 hc with hfront | hlast
    · exact ih _ hfront
    · rw [List.mem_singleton.1 hlast]
      exact h _ (Nat.mod_lt _ (by decide))

variable (hp : Spells p)
include hp

theorem madeOf_fractionText (microsecond : Nat) : MadeOf p (TimeOfDay.fractionText microsecond) := by
  unfold TimeOfDay.fractionText
  split
  · exact madeOf_empty
  · exact (madeOf_singleton hp.point).append (madeOf_padded hp.digit _ _)

theorem Date.madeOf_text (d : Date) : MadeOf p d.text :=
  ((((madeOf_padded hp.digit 4 d.year).append (madeOf_singleton hp.hyphen)).append
    (madeOf_padded hp.digit 2 d.month)).append (madeOf_singleton hp.hyphen)).append
      (madeOf_padded hp.digit 2 d.day)

theorem TimeOfDay.madeOf_clockText (t : TimeOfDay) : MadeOf p t.clockText :=
  ((((madeOf_padded hp.digit 2 t.hour).append (madeOf_singleton hp.colon)).append
    (madeOf_padded hp.digit 2 t.minute)).append (madeOf_singleton hp.colon)).append
      (madeOf_padded hp.digit 2 t.second)

theorem Offset.madeOf_text (o : Offset) : MadeOf p o.text := by
  unfold Offset.text
  have hsign : MadeOf p (if o.micros < 0 then "-" else "+") := by
    split
    · exact madeOf_singleton hp.hyphen
    · exact madeOf_singleton hp.plus
  refine (((hsign.append (madeOf_padded hp.digit 2 _)).append (madeOf_singleton hp.colon)).append
    (madeOf_padded hp.digit 2 _)).append ?_
  split
  · exact madeOf_empty
  · exact ((madeOf_singleton hp.colon).append (madeOf_padded hp.digit 2 _)).append
      (madeOf_fractionText hp _)

theorem Moment.madeOf_textWith (m : Moment) {separator : String} (h : MadeOf p separator) :
    MadeOf p (m.textWith separator) := by
  refine (((m.date.madeOf_text hp).append h).append
    ((m.time.madeOf_clockText hp).append (madeOf_fractionText hp _))).append ?_
  cases m.offset? with
  | none => exact madeOf_empty
  | some o => exact o.madeOf_text hp

end MadeOf

end TableApi.Calendar
