import Mathlib.Algebra.Group.Nat.Defs
import TableApi.Number.Integer
import TableApi.Proofs.Text.Ends

/-! Reading numerals back. A numeral without underscores is read digit by digit, so a decimal
numeral of the store and a hexadecimal numeral of a fixed width give their numbers back. -/

namespace TableApi

namespace Text

theorem splitChars_of_notMem {sep : Char} {cs : List Char} (h : sep ∉ cs) :
    splitChars sep cs = [cs] := by
  induction cs with
  | nil => rfl
  | cons c rest ih =>
    obtain ⟨hc, hrest⟩ := not_or.1 fun hmem => h (List.mem_cons.2 hmem)
    have hsplit := ih hrest
    unfold splitChars at hsplit ⊢
    rw [List.foldr_cons, hsplit, if_neg (Ne.symm hc)]

theorem digitsValue_concat (base : Nat) (digits : List Nat) (d : Nat) :
    digitsValue base (digits ++ [d]) = digitsValue base digits * base + d := by
  simp [digitsValue]

end Text

namespace Number

open Text

theorem groupedDigits?_eq_some {value? : Char → Option Nat} {value : Char → Nat} {cs : List Char}
    (hne : cs ≠ []) (hplain : '_' ∉ cs) (hvalue : ∀ c ∈ cs, value? c = some (value c)) :
    groupedDigits? value? cs = some (cs.map value) := by
  have hmap : cs.mapM value? = some (cs.map value) := by
    clear hne hplain
    induction cs with
    | nil => rfl
    | cons c rest ih =>
      obtain ⟨hc, hrest⟩ := List.forall_mem_cons.1 hvalue
      simp [List.mapM_cons, hc, ih hrest]
  simp [groupedDigits?, splitChars_of_notMem hplain, hne, hmap]

theorem splitSign_of_notMem {cs : List Char} (hminus : '-' ∉ cs) (hplus : '+' ∉ cs) :
    splitSign cs = (false, cs) := by
  unfold splitSign
  split
  · exact absurd List.mem_cons_self hminus
  · exact absurd List.mem_cons_self hplus
  · rfl

/-! ### Decimal numerals -/

theorem digitValue?_of_isDigit {c : Char} (h : c.isDigit = true) :
    digitValue? c = some (c.toNat - 48) := by
  have hrange : 48 ≤ c.toNat ∧ c.toNat < 48 + 10 := by
    simp only [Char.isDigit, Bool.and_eq_true, decide_eq_true_eq, UInt32.le_iff_toNat_le] at h
    have hc : c.val.toNat = c.toNat := rfl
    exact ⟨h.1, Nat.lt_succ_of_le h.2⟩
  simp [digitValue?, digitZeros, hrange]

theorem isBlank_of_isDigit {c : Char} (h : c.isDigit = true) : isBlank c = false := by
  simp only [Char.isDigit, Bool.and_eq_true, decide_eq_true_eq, UInt32.le_iff_toNat_le] at h
  have hc : c.val.toNat = c.toNat := rfl
  have hlow : 48 ≤ c.toNat := h.1
  have hhigh : c.toNat ≤ 57 := h.2
  simp only [isBlank, Bool.or_eq_false_iff, Bool.and_eq_false_iff, decide_eq_false_iff_not,
    beq_eq_false_iff_ne]
  omega

theorem isPlainDigit_of_isDigit {c : Char} (h : c.isDigit = true) : isPlainDigit c = true := by
  simp only [Char.isDigit, Bool.and_eq_true, decide_eq_true_eq, UInt32.le_iff_toNat_le] at h
  exact Bool.and_eq_true_iff.2 ⟨decide_eq_true h.1, decide_eq_true h.2⟩

/-- The digits of a number in decimal. -/
structure Decimals (n : Nat) (cs : List Char) : Prop where
  nonempty : cs ≠ []
  digits : ∀ c ∈ cs, c.isDigit = true
  value : digitsValue 10 (cs.map fun c => c.toNat - 48) = n

theorem decimals_toDigits (n : Nat) : Decimals n (Nat.toDigits 10 n) where
  nonempty := Nat.toDigits_ne_nil
  digits c hc := Nat.isDigit_of_mem_toDigits (by decide) (by decide) hc
  value := by
    have hcomm : ∀ cs : List Char, ∀ before : Nat,
        (cs.map fun c => c.toNat - 48).foldl (fun value digit => value * 10 + digit) before =
          Nat.ofDigitChars 10 cs before := by
      intro cs
      induction cs with
      | nil => exact fun _ => by simp
      | cons c rest ih =>
        intro before
        rw [List.map_cons, List.foldl_cons, ih, Nat.ofDigitChars_cons, Nat.mul_comm]
        rfl
    rw [digitsValue, hcomm, Nat.ofDigitChars_ten_toDigits]

theorem Decimals.notMem {n : Nat} {cs : List Char} (h : Decimals n cs) {c : Char}
    (hc : c.isDigit = false) : c ∉ cs := by
  intro hmem
  rw [h.digits c hmem] at hc
  cases hc

theorem Decimals.groupedDigits? {n : Nat} {cs : List Char} (h : Decimals n cs) :
    groupedDigits? digitValue? cs = some (cs.map fun c => c.toNat - 48) :=
  groupedDigits?_eq_some h.nonempty (h.notMem rfl) fun c hc =>
    digitValue?_of_isDigit (h.digits c hc)

theorem Decimals.readInteger? {n : Nat} {cs : List Char} (h : Decimals n cs) {text : String}
    {negative : Bool} (hstrip : stripChars text.toList = text.toList)
    (hsign : splitSign text.toList = (negative, cs)) (hlength : cs.length ≤ maxNumeralDigits) :
    readInteger? text = some (withSign negative n) := by
  simp only [Number.readInteger?, hstrip, hsign, h.groupedDigits?, List.length_map,
    if_pos hlength, h.value]

/-- A plain numeral is read as its number, unless it is too long to be read at all. -/
theorem Decimals.readPlainInteger? {n : Nat} {s : String} (h : Decimals n s.toList) :
    readPlainInteger? s = if s.length ≤ maxNumeralDigits then some (n : Int) else none := by
  have hstrip : stripChars s.toList = s.toList :=
    trimChars_eq_self_of_forall fun c hc => isBlank_of_isDigit (h.digits c hc)
  have hsign : splitSign s.toList = (false, s.toList) :=
    splitSign_of_notMem (h.notMem rfl) (h.notMem rfl)
  have hempty : s.toList.isEmpty = false := by simpa using h.nonempty
  have hplain : s.toList.all isPlainDigit = true :=
    List.all_eq_true.2 fun c hc => isPlainDigit_of_isDigit (h.digits c hc)
  simp only [Number.readPlainInteger?, hstrip, hsign, hempty, hplain, h.value, String.length_toList]
  simp [withSign]

/-- The text of an integer is a sign or none and digits, which it is read from. -/
theorem readInteger?_toString {n : Int} (h : fitsStore n = true) :
    readInteger? (toString n) = some n := by
  obtain ⟨hlow, hhigh⟩ := of_decide_eq_true h
  unfold minStored at hlow
  unfold maxStored at hhigh
  have hlength (k : Nat) (hk : k < 10 ^ 20) : (Nat.toDigits 10 k).length ≤ maxNumeralDigits :=
    ((Nat.length_toDigits_le_iff (by decide) (by decide)).2 hk).trans (by decide)
  have hrepr (k : Nat) : (Nat.repr k).toList = Nat.toDigits 10 k := by
    rw [Nat.repr_eq_ofList_toDigits, String.toList_ofList]
  rw [Int.toString_eq_repr]
  cases n with
  | ofNat k =>
    have hd := decimals_toDigits k
    have htext : (Int.repr (Int.ofNat k)).toList = Nat.toDigits 10 k := hrepr k
    have hk : k < 10 ^ 20 := by
      have hcast : Int.ofNat k = (k : Int) := rfl
      omega
    have hstrip : stripChars (Nat.toDigits 10 k) = Nat.toDigits 10 k :=
      trimChars_eq_self_of_forall fun c hc => isBlank_of_isDigit (hd.digits c hc)
    have hsign : splitSign (Nat.toDigits 10 k) = (false, Nat.toDigits 10 k) :=
      splitSign_of_notMem (hd.notMem rfl) (hd.notMem rfl)
    exact hd.readInteger? (by rwa [htext]) (by rwa [htext]) (hlength k hk)
  | negSucc k =>
    have hd := decimals_toDigits (k + 1)
    have htext : (Int.repr (Int.negSucc k)).toList = '-' :: Nat.toDigits 10 (k + 1) := by
      change ("-" ++ Nat.repr (k + 1)).toList = _
      rw [String.toList_append, hrepr]
      rfl
    have hk : k + 1 < 10 ^ 20 := by
      have hcast : Int.negSucc k = -((k : Int) + 1) := rfl
      omega
    have hstrip : stripChars ('-' :: Nat.toDigits 10 (k + 1)) = '-' :: Nat.toDigits 10 (k + 1) :=
      trimChars_eq_self_of_forall (List.forall_mem_cons.2 ⟨by decide, fun c hc =>
        isBlank_of_isDigit (hd.digits c hc)⟩)
    have hsign : splitSign ('-' :: Nat.toDigits 10 (k + 1)) = (true, Nat.toDigits 10 (k + 1)) := rfl
    exact hd.readInteger? (by rwa [htext]) (by rwa [htext]) (hlength (k + 1) hk)

/-! ### Hexadecimal numerals -/

def IsHexChar (c : Char) : Prop := ∃ k < 16, c = hexChar k

theorem IsHexChar.of_forall {p : Char → Prop} (h : ∀ k < 16, p (hexChar k)) {c : Char}
    (hc : IsHexChar c) : p c := by
  obtain ⟨k, hk, rfl⟩ := hc
  exact h k hk

theorem isHexChar_of_mem {width n : Nat} {c : Char} (h : c ∈ hexDigits width n) : IsHexChar c := by
  induction width generalizing n with
  | zero => cases h
  | succ width ih =>
    rcases List.mem_append.1 h with hfront | hlast
    · exact ih hfront
    · exact ⟨n % 16, Nat.mod_lt _ (by decide), List.mem_singleton.1 hlast⟩

theorem length_hexDigits (width n : Nat) : (hexDigits width n).length = width := by
  induction width generalizing n with
  | zero => rfl
  | succ width ih => simp [hexDigits, ih]

/-- The value of a hexadecimal digit, for other characters zero. -/
def hexValue (c : Char) : Nat := (hexValue? c).getD 0

theorem digitsValue_hexDigits (width n : Nat) :
    digitsValue 16 ((hexDigits width n).map hexValue) = n % 16 ^ width := by
  have hvalue : ∀ k < 16, hexValue (hexChar k) = k := by decide
  induction width generalizing n with
  | zero => simp [hexDigits, digitsValue, Nat.mod_one]
  | succ width ih =>
    rw [hexDigits, List.map_append, List.map_singleton, digitsValue_concat, ih,
      hvalue _ (Nat.mod_lt _ (by decide)), Nat.pow_succ', Nat.mod_mul]
    omega

/-- Hexadecimal digits of a fixed width are read as the last digits of their number. -/
theorem readHex?_hexDigits {width : Nat} (hwidth : width ≠ 0) (n : Nat) :
    readHex? (hexDigits width n) = some ((n % 16 ^ width : Nat) : Int) := by
  have hhex : ∀ c ∈ hexDigits width n, IsHexChar c := fun c hc => isHexChar_of_mem hc
  have hnot {d : Char} (hd : ∀ k < 16, hexChar k ≠ d) : d ∉ hexDigits width n := fun hmem =>
    (hhex d hmem).of_forall (p := fun c => c ≠ d) hd rfl
  have htrim : trimChars isNumeralBlank (hexDigits width n) = hexDigits width n :=
    trimChars_eq_self_of_forall fun c hc =>
      (hhex c hc).of_forall (p := fun c => isNumeralBlank c = false) (by decide)
  have hmark : dropHexMark (hexDigits width n) = hexDigits width n := by
    unfold dropHexMark
    split
    · next heq => exact absurd (by rw [heq]; simp) (hnot (d := 'x') (by decide))
    · next heq => exact absurd (by rw [heq]; simp) (hnot (d := 'X') (by decide))
    · next heq => exact absurd (by rw [heq]; simp) (hnot (d := 'x') (by decide))
    · next heq => exact absurd (by rw [heq]; simp) (hnot (d := 'X') (by decide))
    · rfl
  have hdigits : groupedDigits? hexValue? (hexDigits width n) =
      some ((hexDigits width n).map hexValue) := by
    refine groupedDigits?_eq_some ?_ (hnot (by decide)) fun c hc => ?_
    · intro hnil
      have hlength := length_hexDigits width n
      rw [hnil] at hlength
      exact hwidth hlength.symm
    · exact (hhex c hc).of_forall (p := fun c => hexValue? c = some (hexValue c)) (by decide)
  simp only [readHex?, htrim, splitSign_of_notMem (hnot (by decide)) (hnot (by decide)), hmark,
    hdigits, Option.map_some, digitsValue_hexDigits]
  rfl

end Number

end TableApi
