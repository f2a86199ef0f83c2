import Mathlib.Algebra.GroupWithZero.Nat
import Mathlib.Data.List.Infix
import Mathlib.Data.List.TakeWhile
import TableApi.Proofs.Store.Canonical
import TableApi.Statement.Clause

/-! What a search finds. The pattern of a search stands for its term and nothing else: behind an
escape mark every character is itself, so a text is found exactly when it holds the term, letters
compared without regard to case. Where the store cuts a text or the term at a null character, what
is left of it counts, and characters that it does not tell apart count as one. -/

namespace TableApi

open Text

/-! ### Letters -/

theorem toNat_toLower (c : Char) :
    c.toLower.toNat = if 65 ≤ c.toNat ∧ c.toNat ≤ 90 then c.toNat + 32 else c.toNat := by
  have hrange : (c.val ≥ 'A'.val ∧ c.val ≤ 'Z'.val) ↔ 65 ≤ c.toNat ∧ c.toNat ≤ 90 := Iff.rfl
  unfold Char.toLower
  split
  · next h =>
    obtain ⟨hlow, hhigh⟩ := hrange.1 h
    rw [if_pos ⟨hlow, hhigh⟩]
    have hshift : (c.val + ('a'.val - 'A'.val)).toNat = (c.toNat + 32) % 2 ^ 32 := rfl
    exact hshift.trans (Nat.mod_eq_of_lt (by omega))
  · next h => rw [if_neg (mt hrange.2 h)]

theorem toLower_toLower (c : Char) : c.toLower.toLower = c.toLower := by
  have hlower : ¬ (65 ≤ c.toLower.toNat ∧ c.toLower.toNat ≤ 90) := by
    rw [toNat_toLower]
    split <;> omega
  rw [← Char.toNat_inj, toNat_toLower c.toLower, if_neg hlower]

theorem toLower_eq_iff {c p : Char} (hp : p.toNat < 65 ∨ 90 < p.toNat ∧ p.toNat < 97) :
    c.toLower = p ↔ c = p := by
  rw [← Char.toNat_inj, ← Char.toNat_inj, toNat_toLower]
  split <;> omega

@[simp] theorem map_toLower_map_toLower (cs : List Char) :
    (cs.map Char.toLower).map Char.toLower = cs.map Char.toLower := by
  rw [List.map_map]
  exact List.map_congr_left fun c _ => toLower_toLower c

theorem utf8Size_toLower (c : Char) : c.toLower.utf8Size = c.utf8Size := by
  have hbasic : ∀ d : Char, d.toNat ≤ 127 → d.utf8Size = 1 := fun d hd =>
    Char.utf8Size_eq_one_iff.2 (UInt32.le_iff_toNat_le.2 hd)
  by_cases h : 65 ≤ c.toNat ∧ c.toNat ≤ 90
  · rw [hbasic c (by omega), hbasic c.toLower (by rw [toNat_toLower, if_pos h]; omega)]
  · have hsame : c.toLower = c := by rw [← Char.toNat_inj, toNat_toLower, if_neg h]
    rw [hsame]

theorem toLower_seenChar (c : Char) : (seenChar c).toLower = seenChar c.toLower := by
  unfold seenChar
  split
  · next h =>
    have hlower : c.toLower.toNat = c.toNat := by
      rw [toNat_toLower, if_neg (by omega)]
    rw [hlower, if_pos h]
    rfl
  · next h =>
    have hlower : ¬ (c.toLower.toNat = 0xFFFE ∨ c.toLower.toNat = 0xFFFF) := by
      rw [toNat_toLower]
      split <;> omega
    rw [if_neg hlower]

namespace Pattern

/-- The form in which a pattern compares a character of its term. -/
def fold (c : Char) : Char := seenChar c.toLower

theorem toLower_fold (c : Char) : (fold c).toLower = fold c := by
  rw [fold, toLower_seenChar, toLower_toLower]

@[simp] theorem map_toLower_map_fold (cs : List Char) :
    (cs.map fold).map Char.toLower = cs.map fold := by
  rw [List.map_map]
  exact List.map_congr_left fun c _ => toLower_fold c

theorem fold_eq_iff {c p : Char} (hp : p.toNat < 65 ∨ 90 < p.toNat ∧ p.toNat < 97) :
    fold c = p ↔ c = p := by
  unfold fold seenChar
  split
  · next h =>
    have hreplacement : replacement.toNat = 0xFFFD := by decide
    rw [toNat_toLower] at h
    rw [← Char.toNat_inj, ← Char.toNat_inj, hreplacement]
    split at h <;> omega
  · exact toLower_eq_iff hp

/-! ### Parts -/

/-- Whether a character has a meaning of its own in a pattern. -/
def IsSpecial (c : Char) : Prop := c = escapeMark ∨ c = '%' ∨ c = '_'

instance (c : Char) : Decidable (IsSpecial c) :=
  inferInstanceAs (Decidable (c = escapeMark ∨ c = '%' ∨ c = '_'))

theorem isSpecial_fold_iff (c : Char) : IsSpecial (fold c) ↔ IsSpecial c := by
  unfold IsSpecial
  rw [fold_eq_iff (by decide), fold_eq_iff (by decide), fold_eq_iff (by decide)]

theorem fold_of_isSpecial {c : Char} (h : IsSpecial c) : fold c = c := by
  rcases h with rfl | rfl | rfl <;> rfl

theorem parts_percent (cs : List Char) : parts ('%' :: cs) = .anything :: parts cs := by
  cases cs <;> rfl

theorem parts_of_not_isSpecial {c : Char} (h : ¬ IsSpecial c) (cs : List Char) :
    parts (c :: cs) = .char c :: parts cs := by
  obtain ⟨hmark, hpercent, hunderscore⟩ : c ≠ escapeMark ∧ c ≠ '%' ∧ c ≠ '_' := by
    simpa only [IsSpecial, not_or] using h
  cases cs with
  | nil => simp only [parts, if_neg hpercent, if_neg hunderscore]
  | cons d rest => simp only [parts, if_neg hmark, if_neg hpercent, if_neg hunderscore]

theorem escape_cons (c : Char) (cs : List Char) :
    escape (c :: cs) = (if IsSpecial c then [escapeMark, c] else [c]) ++ escape cs := rfl

theorem parts_escape_append (cs rest : List Char) :
    parts (escape cs ++ rest) = cs.map .char ++ parts rest := by
  induction cs with
  | nil => rfl
  | cons c cs ih =>
    rw [escape_cons, List.append_assoc, List.map_cons, List.cons_append, ← ih]
    split
    · rfl
    · next h => exact parts_of_not_isSpecial h _

theorem map_fold_escape (cs : List Char) : (escape cs).map fold = escape (cs.map fold) := by
  induction cs with
  | nil => rfl
  | cons c cs ih =>
    rw [List.map_cons, escape_cons, escape_cons, List.map_append, ih]
    congr 1
    by_cases h : IsSpecial c
    · rw [if_pos h, if_pos ((isSpecial_fold_iff c).2 h), fold_of_isSpecial h, List.map_cons,
        List.map_cons, List.map_nil, fold_of_isSpecial h]
      rfl
    · rw [if_neg h, if_neg (mt (isSpecial_fold_iff c).1 h)]
      rfl

theorem map_seenChar_holding (term : String) : (holding term).map seenChar =
    '%' :: (escape (term.toList.map fold) ++ ['%']) := by
  rw [← map_fold_escape, holding, List.map_cons, List.map_append, List.map_map]
  rfl

/-! ### Matching -/

theorem anyEnd_eq_true_iff {test : List Char → Bool} {cs : List Char} :
    anyEnd test cs = true ↔ ∃ back, back <:+ cs ∧ test back = true := by
  induction cs with
  | nil => simp [anyEnd]
  | cons c rest ih =>
    rw [anyEnd, Bool.or_eq_true, ih]
    constructor
    · rintro (hwhole | ⟨back, hback, htest⟩)
      · exact ⟨_, List.suffix_rfl, hwhole⟩
      · exact ⟨back, hback.trans (List.suffix_cons _ _), htest⟩
    · rintro ⟨back, hback, htest⟩
      rcases List.suffix_cons_iff.1 hback with rfl | hrest
      · exact Or.inl htest
      · exact Or.inr ⟨back, hrest, htest⟩

/-- Characters match a text that begins with them, and what comes behind them matches the rest. -/
theorem matchesParts_chars_append_iff {ps : List Char} {rest : List Part} {cs : List Char} :
    matchesParts (ps.map .char ++ rest) cs = true ↔ ∃ front back, cs = front ++ back ∧
      front.map Char.toLower = ps.map Char.toLower ∧ matchesParts rest back = true := by
  induction ps generalizing cs with
  | nil =>
    constructor
    · exact fun h => ⟨[], cs, rfl, rfl, h⟩
    · rintro ⟨front, back, rfl, hfront, h⟩
      rw [List.map_eq_nil_iff.1 hfront]
      exact h
  | cons p ps ih =>
    cases cs with
    | nil =>
      constructor
      · exact nofun
      · rintro ⟨front, back, hcs, hfront, -⟩
        rw [(List.append_eq_nil_iff.1 hcs.symm).1] at hfront
        cases hfront
    | cons c cs =>
      have hstep : matchesParts ((p :: ps).map .char ++ rest) (c :: cs) = true ↔
          p.toLower = c.toLower ∧ matchesParts (ps.map .char ++ rest) cs = true := by
        rw [List.map_cons, List.cons_append, matchesParts, Bool.and_eq_true, beq_iff_eq]
      rw [hstep, ih]
      constructor
      · rintro ⟨hhead, front, back, rfl, hfront, h⟩
        exact ⟨c :: front, back, rfl, by rw [List.map_cons, List.map_cons, hhead, hfront], h⟩
      · rintro ⟨front, back, hcs, hfront, h⟩
        cases front with
        | nil => cases hfront
        | cons d front =>
          obtain ⟨rfl, rfl⟩ := List.cons.inj hcs
          obtain ⟨hhead, htail⟩ := List.cons.inj hfront
          exact ⟨hhead.symm, front, back, rfl, htail, h⟩

theorem matchesParts_ending_iff {term cs : List Char} :
    matchesParts (.anything :: term.map .char) cs = true ↔
      term.map Char.toLower <:+ cs.map Char.toLower := by
  rw [matchesParts, anyEnd_eq_true_iff, List.suffix_map_iff]
  constructor
  · rintro ⟨back, hback, hmatches⟩
    rw [← List.append_nil (term.map Part.char), matchesParts_chars_append_iff] at hmatches
    obtain ⟨front, last, rfl, hfront, hlast⟩ := hmatches
    rw [List.isEmpty_iff.1 hlast, List.append_nil] at hback
    exact ⟨front, hback, hfront.symm⟩
  · rintro ⟨back, hback, hterm⟩
    refine ⟨back, hback, ?_⟩
    rw [← List.append_nil (term.map Part.char), matchesParts_chars_append_iff]
    exact ⟨back, [], (List.append_nil _).symm, hterm.symm, rfl⟩

/-- With anything on both sides, characters match a text that holds them. -/
theorem matchesParts_holding_iff {term cs : List Char} :
    matchesParts (.anything :: (term.map .char ++ [.anything])) cs = true ↔
      term.map Char.toLower <:+: cs.map Char.toLower := by
  rw [matchesParts, anyEnd_eq_true_iff, List.infix_map_iff]
  simp only [matchesParts_chars_append_iff]
  constructor
  · rintro ⟨_, ⟨before, rfl⟩, front, back, rfl, hfront, -⟩
    exact ⟨front, ⟨before, back, List.append_assoc _ _ _⟩, hfront.symm⟩
  · rintro ⟨front, ⟨before, back, rfl⟩, hterm⟩
    have hback : matchesParts [.anything] back = true :=
      anyEnd_eq_true_iff.2 ⟨[], List.nil_suffix, rfl⟩
    exact ⟨front ++ back, ⟨before, (List.append_assoc _ _ _).symm⟩, front, back, rfl, hterm.symm,
      hback⟩

/-! ### Terms -/

/-- Whether a search for a term finds the characters seen in a text. These count up to the first
null character. A term that is cut there has lost what may come behind it, so the text must end with
what is left. -/
def Sees (term seen : List Char) : Prop :=
  if '\x00' ∈ term then (untilNull term).map fold <:+ (untilNull seen).map Char.toLower
  else term.map fold <:+: (untilNull seen).map Char.toLower

instance (term seen : List Char) : Decidable (Sees term seen) :=
  inferInstanceAs (Decidable (ite _ _ _))

def Finds (term text : List Char) : Prop := Sees term (text.map seenChar)

instance (term text : List Char) : Decidable (Finds term text) :=
  inferInstanceAs (Decidable (Sees _ _))

theorem map_untilNull {f : Char → Char} (hf : ∀ c, f c = '\x00' ↔ c = '\x00') (cs : List Char) :
    (untilNull cs).map f = untilNull (cs.map f) := by
  have hnull : (fun c => decide (c ≠ '\x00')) ∘ f = fun c => decide (c ≠ '\x00') := by
    funext c
    simp only [Function.comp, ne_eq, hf]
  rw [untilNull, untilNull, List.takeWhile_map, hnull]

theorem map_toLower_untilNull (cs : List Char) :
    (untilNull cs).map Char.toLower = untilNull (cs.map Char.toLower) :=
  map_untilNull (fun _ => toLower_eq_iff (by decide)) cs

theorem map_fold_untilNull (cs : List Char) : (untilNull cs).map fold = untilNull (cs.map fold) :=
  map_untilNull (fun _ => fold_eq_iff (by decide)) cs

theorem mem_map_fold_iff (cs : List Char) : '\x00' ∈ cs.map fold ↔ '\x00' ∈ cs := by
  rw [List.mem_map]
  constructor
  · rintro ⟨c, hc, hnull⟩
    exact (fold_eq_iff (by decide)).1 hnull ▸ hc
  · exact fun h => ⟨_, h, (fold_eq_iff (by decide)).2 rfl⟩

theorem sees_map_toLower_iff (term seen : List Char) :
    Sees term (seen.map Char.toLower) ↔ Sees term seen := by
  rw [Sees, Sees, ← map_toLower_untilNull, map_toLower_map_toLower]

theorem untilNull_cons {c : Char} (h : c ≠ '\x00') (cs : List Char) :
    untilNull (c :: cs) = c :: untilNull cs :=
  List.takeWhile_cons_of_pos (decide_eq_true h)

theorem untilNull_append_of_mem {cs : List Char} (h : '\x00' ∈ cs) (rest : List Char) :
    untilNull (cs ++ rest) = untilNull cs := by
  induction cs with
  | nil => cases h
  | cons c cs ih =>
    by_cases hc : c = '\x00'
    · rw [hc]
      rfl
    · have hcs := (List.mem_cons.1 h).resolve_left (Ne.symm hc)
      rw [List.cons_append, untilNull_cons hc, untilNull_cons hc, ih hcs]

theorem untilNull_of_notMem {cs : List Char} (h : '\x00' ∉ cs) : untilNull cs = cs :=
  List.takeWhile_eq_self_iff.2 fun _ hc => decide_eq_true fun hnull => h (hnull ▸ hc)

theorem mem_escape_iff (cs : List Char) : '\x00' ∈ escape cs ↔ '\x00' ∈ cs := by
  induction cs with
  | nil => rfl
  | cons c cs ih =>
    have hmark : '\x00' ≠ escapeMark := by decide
    rw [escape_cons, List.mem_append, ih, List.mem_cons]
    split <;> simp [hmark]

theorem untilNull_escape (cs : List Char) : untilNull (escape cs) = escape (untilNull cs) := by
  induction cs with
  | nil => rfl
  | cons c cs ih =>
    by_cases hc : c = '\x00'
    · rw [hc]
      rfl
    · rw [untilNull_cons hc, escape_cons, escape_cons, ← ih]
      split
      · rw [List.cons_append, untilNull_cons (by decide), List.cons_append, untilNull_cons hc]
        rfl
      · rw [List.cons_append, untilNull_cons hc]
        rfl

/-- The pattern of a term matches the characters in which a search for the term finds it. -/
theorem matchesText_holding_iff (term : String) (seen : List Char) :
    matchesText (holding term) seen = true ↔ Sees term.toList seen := by
  rw [matchesText, map_seenChar_holding, untilNull_cons (by decide), Sees]
  split
  · next h =>
    have hcut : '\x00' ∈ escape (term.toList.map fold) := by
      rw [mem_escape_iff, mem_map_fold_iff]
      exact h
    rw [untilNull_append_of_mem hcut, untilNull_escape, ← map_fold_untilNull, parts_percent,
      ← List.append_nil (escape _), parts_escape_append, parts, List.append_nil,
      matchesParts_ending_iff, map_toLower_map_fold]
  · next h =>
    have hwhole : '\x00' ∉ escape (term.toList.map fold) ++ ['%'] := by
      rw [List.mem_append, mem_escape_iff, mem_map_fold_iff]
      rintro (hnull | hpercent)
      · exact h hnull
      · exact absurd hpercent (by decide)
    rw [untilNull_of_notMem hwhole, parts_percent, parts_escape_append]
    exact matchesParts_holding_iff.trans (by rw [map_toLower_map_fold])

/-! ### Length -/

theorem utf8ByteSize_ofList (cs : List Char) :
    (String.ofList cs).utf8ByteSize = (cs.map Char.utf8Size).sum := by
  induction cs with
  | nil => rfl
  | cons c cs ih =>
    rw [String.ofList_cons, String.utf8ByteSize_append, String.utf8ByteSize_singleton, ih,
      List.map_cons, List.sum_cons]

/-- The bytes that a term takes in a pattern: its own and one for every mark before a sign. -/
def byteCount (term : String) : Nat :=
  term.utf8ByteSize + term.toList.countP fun c => decide (IsSpecial c)

theorem sum_utf8Size_escape (cs : List Char) : ((escape cs).map Char.utf8Size).sum =
    (cs.map Char.utf8Size).sum + cs.countP fun c => decide (IsSpecial c) := by
  induction cs with
  | nil => rfl
  | cons c cs ih =>
    have hmark : escapeMark.utf8Size = 1 := rfl
    rw [escape_cons, List.map_append, List.sum_append, ih, List.map_cons, List.sum_cons,
      List.countP_cons]
    by_cases h : IsSpecial c
    · simp [h, hmark]
      omega
    · simp [h]
      omega

/-- The pattern of a term has its bytes and two percent signs. -/
theorem isTooLong_holding_iff (term : String) :
    isTooLong (holding term) = true ↔ maxBytes < byteCount term + 2 := by
  have hterm : term.utf8ByteSize = (term.toList.map Char.utf8Size).sum := by
    rw [← utf8ByteSize_ofList, String.ofList_toList]
  have hlower : Char.utf8Size ∘ Char.toLower = Char.utf8Size := by
    funext c
    exact utf8Size_toLower c
  have hpercent : '%'.utf8Size = 1 := rfl
  have hsum : ((holding term).map Char.utf8Size).sum = byteCount term + 2 := by
    rw [holding, List.map_cons, List.map_append, List.map_map, hlower, List.sum_cons,
      List.sum_append, sum_utf8Size_escape, byteCount, hterm, hpercent]
    simp only [List.map_cons, List.map_nil, List.sum_cons, List.sum_nil, hpercent]
    omega
  rw [isTooLong, decide_eq_true_iff, utf8ByteSize_ofList, hsum]

end Pattern

def Cell.text? : Cell → Option String
  | text s => some s
  | _ => none

/-- A search finds the cells in whose characters it finds its term; there are none in a null. -/
theorem Clause.holdsTerm_iff {cell : Cell} (term : String) : holdsTerm term cell = true ↔
    ∃ seen, searchChars cell = some seen ∧ Pattern.Sees term.toList seen := by
  unfold holdsTerm
  cases searchChars cell with
  | none => simp
  | some seen =>
    simp only [Pattern.matchesText_holding_iff, Pattern.sees_map_toLower_iff, Option.some.injEq,
      exists_eq_left']

/-- In a column of texts a search finds the rows in whose text it finds its term. -/
theorem Clause.holdsTerm_of_belongs {cell : Cell} (h : cell.Belongs .text) (term : String) :
    holdsTerm term cell =
      cell.text?.any fun s => decide (Pattern.Finds term.toList s.toList) := by
  rw [Bool.eq_iff_iff, holdsTerm_iff]
  rcases h with rfl | ⟨s, rfl⟩
  · simp [searchChars, Cell.text?]
  · rw [Cell.text?, Option.any_some, decide_eq_true_iff, Pattern.Finds]
    simp [searchChars]

end TableApi
