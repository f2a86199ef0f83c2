import TableApi.Proofs.Number.Integer
import TableApi.Proofs.Statement.Operand
import TableApi.Proofs.Store.Cells
import TableApi.Proofs.Uuid
import TableApi.Value.Plain

/-! The form that a column gives the values of its kind. Whatever value a column is given that it is
meant for, it keeps null or a cell of this form: a text among numbers is never one that the store
would read as a number. -/

namespace TableApi

open Text Number Calendar

/-- The kinds whose values have texts that give them back. -/
def ColumnKind.isSpelled : ColumnKind → Bool
  | .integer | .text | .boolean | .date | .moment | .uuid => true
  | .float | .numeric | .json | .raw => false

namespace Cell

/-- The form in which a column of a kind keeps a value; of the kinds without texts of their own
nothing is said. -/
def Canonical (kind : ColumnKind) (cell : Cell) : Prop :=
  match kind with
  | .integer => ∃ n, cell = .integer n ∧ fitsStore n = true
  | .text => ∃ s, cell = .text s
  | .boolean => ∃ b : Bool, cell = .integer b.toNat
  | .date => ∃ d : Date, cell = .text d.text
  | .moment => ∃ m : Moment, cell = .text (ParameterType.momentText m)
  | .uuid => ∃ u : Uuid, cell = .text u.plainText
  | .float | .numeric | .json | .raw => True

/-- A cell that is null or of the form of a kind. -/
def Belongs (kind : ColumnKind) (cell : Cell) : Prop := cell = .null ∨ Canonical kind cell

end Cell

/-- A value that a column of a kind is meant for: null, or a value that it accepts, byte strings
aside. -/
def Value.Suits (kind : ColumnKind) (v : Value) : Prop :=
  kind.isSpelled = true → v = .null ∨ Coercion.accepts kind v = true ∧ ∀ bs, v ≠ .bytes bs

theorem Value.suits_null (kind : ColumnKind) : Suits kind .null := fun _ => Or.inl rfl

/-! ### Texts that are no numbers -/

namespace Store

theorem isSpace_of_not_isBlank {c : Char} (h : isBlank c = false) : isSpace c = false := by
  by_contra hspace
  rw [Bool.not_eq_false, isSpace, Bool.or_eq_true, decide_eq_true_eq, Bool.and_eq_true,
    decide_eq_true_eq, decide_eq_true_eq] at hspace
  rcases hspace with rfl | ⟨hlow, hhigh⟩
  · exact absurd h (by decide)
  · simp [isBlank, hlow, hhigh] at h

/-- A text that begins with digits and a hyphen is no number. -/
theorem readNumber?_of_hyphen {s : String} {digits rest : List Char}
    (hs : s.toList = digits ++ '-' :: rest) (hne : digits ≠ [])
    (hdigits : ∀ c ∈ digits, isPlainDigit c = true) (hends : EndsSolid s) :
    readNumber? s = none := by
  obtain ⟨last, hlast, hsolid⟩ := hends
  obtain ⟨d, ds, rfl⟩ := List.exists_cons_of_ne_nil hne
  have hd : isPlainDigit d = true := hdigits d List.mem_cons_self
  have hnot {c : Char} (hc : isPlainDigit c = false) : d ≠ c := by
    rintro rfl
    rw [hd] at hc
    cases hc
  have hspace : isSpace d = false := by
    have hrange : 48 ≤ d.toNat ∧ d.toNat ≤ 57 := by simpa [isPlainDigit] using hd
    have hne : d ≠ ' ' := hnot (by decide)
    simp only [isSpace, Bool.or_eq_false_iff, decide_eq_false_iff_not, hne, not_false_eq_true,
      true_and, Bool.and_eq_false_iff]
    omega
  have htrim : trimChars isSpace s.toList = d :: ds ++ '-' :: rest := by
    rw [hs] at hlast ⊢
    exact trimChars_eq_self hspace hlast (isSpace_of_not_isBlank hsolid)
  have hsign : splitSign (d :: ds ++ '-' :: rest) = (false, d :: ds ++ '-' :: rest) := by
    rw [List.cons_append]
    unfold splitSign
    split
    · next heq => exact absurd (List.cons.inj heq).1 (hnot (by decide))
    · next heq => exact absurd (List.cons.inj heq).1 (hnot (by decide))
    · rfl
  have hstop : isPlainDigit '-' = false := by decide
  have htake : (d :: ds ++ '-' :: rest).takeWhile isPlainDigit = d :: ds := by
    rw [List.takeWhile_append_of_pos hdigits]
    simp [hstop]
  have hdrop : (d :: ds ++ '-' :: rest).dropWhile isPlainDigit = '-' :: rest := by
    rw [List.dropWhile_append_of_pos hdigits]
    simp [hstop]
  simp only [readNumber?, htrim, hsign, htake, hdrop]
  simp [readExponent?]

theorem readNumber?_date (d : Date) (rest : String) (h : EndsSolid (d.text ++ rest)) :
    readNumber? (d.text ++ rest) = none := by
  have hhyphen : "-".toList = ['-'] := by decide
  have hyear : ∀ c ∈ (padded 4 d.year).toList, isPlainDigit c = true :=
    madeOf_padded (by decide) 4 d.year
  have hne : (padded 4 d.year).toList ≠ [] := by
    rw [padded, String.toList_ofList]
    exact List.append_ne_nil_of_right_ne_nil _ (List.cons_ne_nil _ _)
  have htext : (d.text ++ rest).toList = (padded 4 d.year).toList ++ '-' ::
      ((padded 2 d.month).toList ++ '-' :: ((padded 2 d.day).toList ++ rest.toList)) := by
    simp only [Date.text, String.toList_append, hhyphen, List.append_assoc, List.cons_append,
      List.nil_append]
  exact readNumber?_of_hyphen htext hne hyear h

end Store

namespace Calendar

theorem endsSolid_momentText (m : Moment) : EndsSolid (ParameterType.momentText m) :=
  (endsSolid_padded 5 m.time.microsecond).append _

theorem readNumber?_dateText (d : Date) : Store.readNumber? d.text = none := by
  have h := Store.readNumber?_date d ""
  rw [String.append_empty] at h
  exact h d.endsSolid_text

theorem readNumber?_momentText (m : Moment) :
    Store.readNumber? (ParameterType.momentText m) = none := by
  have htext : ParameterType.momentText m = m.date.text ++
      (" " ++ m.time.clockText ++ "." ++ padded 6 m.time.microsecond) := by
    simp only [ParameterType.momentText, String.append_assoc]
  have hsolid := endsSolid_momentText m
  rw [htext] at hsolid ⊢
  exact Store.readNumber?_date m.date _ hsolid

end Calendar

theorem compared_numeric_text {s : String} (h : Store.readNumber? s = none) :
    Affinity.numeric.compared (.text s) = .text s := by
  have hnumber : Affinity.toNumber (.text s) = (Store.readNumber? s).getD (.text s) := rfl
  exact hnumber.trans (by rw [h, Option.getD_none])

theorem stored_numeric_text {s : String} (h : Store.readNumber? s = none) :
    Affinity.numeric.stored (.text s) = .text s :=
  congrArg Cell.narrow (compared_numeric_text h)

/-! ### What a column keeps -/

section Keeping

variable {c : Column} {v : Value}

theorem belongs_text_numberToText {cell : Cell} (h : ∀ bs, cell ≠ .blob bs) :
    (cell.numberToText).Belongs .text := by
  cases cell with
  | null => exact Or.inl rfl
  | blob bs => exact absurd rfl (h bs)
  | integer n => exact Or.inr ⟨_, rfl⟩
  | real x => exact Or.inr ⟨_, rfl⟩
  | text s => exact Or.inr ⟨s, rfl⟩

/-- Only byte strings are bound as such. -/
theorem boundCell_ne_blob {v : Value} (h : ∀ bs, v ≠ .bytes bs) (bs : List Nat) :
    Clause.boundCell (.asGiven, v) ≠ .blob bs := by
  have hprepared : ∀ c, Prepared.ofValue v = .cell c → c ≠ .blob bs := by
    intro c hc
    cases v with
    | bytes other => exact absurd rfl (h other)
    | int n =>
      rw [Clause.eq_integer_of_ofInt hc]
      exact Cell.noConfusion
    | float x =>
      rw [← Prepared.cell.inj hc]
      split <;> exact Cell.noConfusion
    | _ => cases hc <;> exact Cell.noConfusion
  simp only [Clause.boundCell, ParameterType.prepare]
  split
  · next c hc => exact hprepared c (Except.ok.inj hc)
  · exact Cell.noConfusion

theorem belongs_kept_integer (n : Int) :
    (Affinity.numeric.stored (Clause.boundCell (.asGiven, .int n))).Belongs .integer := by
  have hbound : Clause.boundCell (.asGiven, .int n) =
      if fitsStore n = true then .integer n else .null := by
    simp only [Clause.boundCell, ParameterType.prepare, Prepared.ofValue, Prepared.ofInt]
    by_cases hfits : fitsStore n = true <;> simp [hfits]
  rw [hbound]
  split
  · next hfits => exact Or.inr ⟨n, rfl, hfits⟩
  · exact Or.inl rfl

/-- A column keeps a value that it is meant for in the form of its kind, or keeps nothing. -/
theorem belongs_kept (h : v.Suits c.kind) : (c.kept v).Belongs c.kind := by
  unfold Column.kept
  unfold Value.Suits at h
  generalize c.kind = kind at h ⊢
  cases kind with
  | float | numeric | json | raw => exact Or.inr trivial
  | integer =>
    rcases h rfl with rfl | ⟨haccepts, -⟩
    · exact Or.inl rfl
    · cases v <;> cases haccepts
      · next b => cases b <;> exact Or.inr ⟨_, rfl, rfl⟩
      · next n => exact belongs_kept_integer n
  | text =>
    rcases h rfl with rfl | ⟨-, hbytes⟩
    · exact Or.inl rfl
    · exact belongs_text_numberToText (boundCell_ne_blob hbytes)
  | boolean =>
    rcases h rfl with rfl | ⟨haccepts, -⟩
    · exact Or.inl rfl
    · cases v <;> cases haccepts
      next b => exact Or.inr ⟨b, rfl⟩
  | date =>
    rcases h rfl with rfl | ⟨haccepts, -⟩
    · exact Or.inl rfl
    · cases v <;> cases haccepts
      · next d => exact Or.inr ⟨d, stored_numeric_text (readNumber?_dateText d)⟩
      · next m => exact Or.inr ⟨m.date, stored_numeric_text (readNumber?_dateText m.date)⟩
  | moment =>
    rcases h rfl with rfl | ⟨haccepts, -⟩
    · exact Or.inl rfl
    · cases v <;> cases haccepts
      next m => exact Or.inr ⟨m, stored_numeric_text (readNumber?_momentText m)⟩
  | uuid =>
    rcases h rfl with rfl | ⟨haccepts, -⟩
    · exact Or.inl rfl
    · cases v <;> cases haccepts
      next u => exact Or.inr ⟨u, rfl⟩

theorem Column.kept_moment (hkind : c.kind = .moment) (m : Moment) :
    c.kept (.moment m) = .text (ParameterType.momentText m) := by
  have hbound : Clause.boundCell (.moment, .moment m) = .text (ParameterType.momentText m) := rfl
  rw [Column.kept, hkind, ColumnKind.parameterType, hbound]
  exact stored_numeric_text (readNumber?_momentText m)

end Keeping

end TableApi
