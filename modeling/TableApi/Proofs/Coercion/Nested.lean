import TableApi.Proofs.Calendar.RoundTrip
import TableApi.Proofs.Coercion
import TableApi.Proofs.Text.Ends

/-! Lists, tuples and mappings are never converted. Their texts begin with a bracket, and with a
bracket begins neither a numeral nor a date, a moment or a word for a truth value. Of a mapping in
braces, which the reader of identifiers drops, the quote of its first key remains. -/

namespace TableApi

open Text Number

def openers : List Char := ['[', '(', '\x7b', '\x27', '\x22']

theorem forall_openers {P : Char → Prop}
    (h : P '[' ∧ P '(' ∧ P '\x7b' ∧ P '\x27' ∧ P '\x22') : ∀ c ∈ openers, P c := by
  simpa [openers] using h

variable {c : Char}

/-! ### Numerals -/

section Numerals

variable (h : c ∈ openers)
include h

theorem isBlank_opener : isBlank c = false := by
  have hall : ∀ c ∈ openers, isBlank c = false := forall_openers (by decide)
  exact hall c h

theorem isNumeralBlank_opener : isNumeralBlank c = false := by
  rw [isNumeralBlank, isBlank_opener h, Bool.false_and]

theorem digitValue?_opener : digitValue? c = none := by
  have hall : ∀ c ∈ openers, digitValue? c = none := forall_openers (by decide)
  exact hall c h

theorem hexValue?_opener : hexValue? c = none := by
  have hall : ∀ c ∈ openers, hexValue? c = none := forall_openers (by decide)
  exact hall c h

theorem toLower_opener : c.toLower = c := by
  have hall : ∀ c ∈ openers, c.toLower = c := forall_openers (by decide)
  exact hall c h

theorem splitSign_opener (cs : List Char) : splitSign (c :: cs) = (false, c :: cs) := by
  have hall : ∀ c ∈ openers, c ≠ '-' ∧ c ≠ '+' := forall_openers (by decide)
  obtain ⟨hminus, hplus⟩ := hall c h
  unfold splitSign
  split
  · next heq => exact absurd (List.cons.inj heq).1 hminus
  · next heq => exact absurd (List.cons.inj heq).1 hplus
  · rfl

theorem filter_underscore_opener (cs : List Char) :
    (c :: cs).filter (· ≠ '_') = c :: cs.filter (· ≠ '_') := by
  have hall : ∀ c ∈ openers, c ≠ '_' := forall_openers (by decide)
  exact List.filter_cons_of_pos (by simpa using hall c h)

theorem groupedDigits?_opener {value? : Char → Option Nat} (hvalue : value? c = none)
    (cs : List Char) : groupedDigits? value? (c :: cs) = none := by
  have hall : ∀ c ∈ openers, c ≠ '_' := forall_openers (by decide)
  obtain ⟨piece, more, hsplit⟩ : ∃ piece more, splitChars '_' (c :: cs) = (c :: piece) :: more := by
    unfold splitChars
    rw [List.foldr_cons, if_neg (hall c h)]
    split
    · exact ⟨_, _, rfl⟩
    · exact ⟨_, _, rfl⟩
  simp [groupedDigits?, hsplit, hvalue]

theorem readUnsigned?_opener (cs : List Char) : Decimal.readUnsigned? (c :: cs) = none := by
  have hall : ∀ c ∈ openers, c ≠ '.' := forall_openers (by decide)
  have htake : Decimal.takeDigits (c :: cs) = ([], c :: cs) := by
    simp [Decimal.takeDigits, digitValue?_opener h]
  unfold Decimal.readUnsigned?
  simp only [htake]
  split
  · next heq => exact absurd (List.cons.inj heq).1 (hall c h)
  · rfl

theorem readInteger?_opener {s : String} {cs : List Char} (hs : s.toList = c :: cs) :
    readInteger? s = none := by
  unfold readInteger?
  simp only [hs, stripChars, trimChars_cons (isBlank_opener h), splitSign_opener h,
    groupedDigits?_opener h (digitValue?_opener h)]

theorem readDouble?_opener {s : String} {cs : List Char} (hs : s.toList = c :: cs) :
    Double.read? s = none := by
  have hall : ∀ c ∈ openers, c ≠ 'i' ∧ c ≠ 'n' := forall_openers (by decide)
  obtain ⟨hi, hn⟩ := hall c h
  unfold Double.read?
  simp only [hs, trimChars_cons (isNumeralBlank_opener h), filter_underscore_opener h,
    splitSign_opener h, readUnsigned?_opener h, Decimal.lowerChars, List.map_cons,
    toLower_opener h]
  split
  · split
    · next heq => exact absurd (List.cons.inj heq).1 hi
    · next heq => exact absurd (List.cons.inj heq).1 hi
    · next heq => exact absurd (List.cons.inj heq).1 hn
    · rfl
  · rfl

theorem readDecimal?_opener {s : String} {cs : List Char} (hs : s.toList = c :: cs) :
    Decimal.read? s = none := by
  have hall : ∀ c ∈ openers, c ≠ 'i' ∧ c ≠ 'n' ∧ c ≠ 's' := forall_openers (by decide)
  obtain ⟨hi, hn, hsignal⟩ := hall c h
  unfold Decimal.read?
  simp only [hs, stripChars, trimChars_cons (isBlank_opener h), filter_underscore_opener h,
    splitSign_opener h, readUnsigned?_opener h, Decimal.lowerChars, List.map_cons,
    toLower_opener h]
  split
  · next heq => exact absurd (List.cons.inj heq).1 hi
  · next heq => exact absurd (List.cons.inj heq).1 hi
  · next heq => exact absurd (List.cons.inj heq).1 hn
  · next heq => exact absurd (List.cons.inj heq).1 hsignal
  · rfl

theorem readHex?_opener (cs : List Char) : readHex? (c :: cs) = none := by
  have hall : ∀ c ∈ openers, c ≠ '0' := forall_openers (by decide)
  have hmark : ∀ rest, dropHexMark (c :: rest) = c :: rest := by
    intro rest
    unfold dropHexMark
    split
    all_goals first
      | rfl
      | next heq => exact absurd (List.cons.inj heq).1 (hall c h)
  simp only [readHex?, trimChars_cons (isNumeralBlank_opener h), splitSign_opener h, hmark,
    groupedDigits?_opener h (hexValue?_opener h), Option.map_none]

end Numerals

/-! ### Words, dates and moments -/

section Words

variable (h : c ∈ openers) {s : String} {cs : List Char} (hs : s.toList = c :: cs)
include h hs

theorem foldCase_notMem_words :
    foldCase s ∉ Coercion.trueWords ∧ foldCase s ∉ Coercion.falseWords := by
  have hfirst : (foldCase s).toList.head? = some c := by
    rw [foldCase, hs, String.toList_ofList, List.map_cons, toLower_opener h, List.head?_cons]
  have hwords : ∀ c ∈ openers, ∀ word ∈ Coercion.trueWords ++ Coercion.falseWords,
      word.toList.head? ≠ some c := forall_openers (by decide)
  constructor <;> intro hmem
  · exact hwords c h _ (List.mem_append_left _ hmem) hfirst
  · exact hwords c h _ (List.mem_append_right _ hmem) hfirst

theorem readDate?_opener : Calendar.readDate? s = none ∧ Calendar.readMoment? s = none := by
  have hall : ∀ c ∈ openers, c.toNat < 128 ∧ Calendar.isDigitByte c.toNat = false :=
    forall_openers (by decide)
  obtain ⟨hsmall, hdigit⟩ := hall c h
  have hbytes : Calendar.bytesOf s = c.toNat :: cs.flatMap utf8Bytes := by
    rw [Calendar.bytesOf, hs, List.flatMap_cons, Calendar.utf8Bytes_of_lt hsmall,
      List.singleton_append]
  have hnumber : ∀ rest, Calendar.takeNumber? 4 0 (c.toNat :: rest) = none := by
    intro rest
    simp [Calendar.takeNumber?, hdigit]
  constructor
  · simp [Calendar.readDate?, Calendar.readDateBytes?, hbytes, hnumber]
  · simp [Calendar.readMoment?, Calendar.readDateBytes?, hbytes, hnumber]

theorem exists_toList_spellOffset : ∃ rest, (Coercion.spellOffset s).toList = c :: rest := by
  have hall : ∀ c ∈ openers, c ≠ 'Z' := forall_openers (by decide)
  rw [Coercion.spellOffset, hs, String.toList_ofList, List.flatMap_cons, if_neg (hall c h),
    List.singleton_append]
  exact ⟨_, rfl⟩

theorem readMomentText?_opener : Coercion.readMomentText? s = none := by
  obtain ⟨rest, hrest⟩ := exists_toList_spellOffset h hs
  exact (readDate?_opener h hrest).2

end Words

/-! ### Identifiers -/

section Identifiers

variable (h : c ∈ openers)
include h

theorem without_opener (rest cs : List Char) :
    Uuid.without ('u' :: rest) 0 (c :: cs) = c :: Uuid.without ('u' :: rest) 0 cs := by
  have hall : ∀ c ∈ openers, 'u' ≠ c := forall_openers (by decide)
  simp [Uuid.without, List.isPrefixOf, hall c h]

/-- An opening brace is dropped, any other bracket and a quote are not. -/
theorem exists_core (hbrace : Uuid.isBrace c = false) {s : String} {cs : List Char}
    (hs : s.toList = c :: cs ∨ s.toList = '\x7b' :: c :: cs) :
    ∃ rest, Uuid.core s = c :: rest := by
  have hall : ∀ c ∈ openers, c ≠ '-' := forall_openers (by decide)
  have hopen : '\x7b' ∈ openers := by decide
  have hurn : "urn:".toList = ['u', 'r', 'n', ':'] := by decide
  have huuid : "uuid:".toList = ['u', 'u', 'i', 'd', ':'] := by decide
  have hfilter : ∀ rest : List Char, (c :: rest).filter (· ≠ '-') = c :: rest.filter (· ≠ '-') :=
    fun rest => List.filter_cons_of_pos (by simpa using hall c h)
  have hdrop : Uuid.isBrace '\x7b' = true := rfl
  unfold Uuid.core
  rcases hs with hs | hs
  · simp only [hurn, huuid, hs, without_opener h, trimChars_cons hbrace, hfilter]
    exact ⟨_, rfl⟩
  · simp only [hurn, huuid, hs, without_opener hopen, without_opener h,
      trimChars_cons_of_drop hdrop, trimChars_cons hbrace, hfilter]
    exact ⟨_, rfl⟩

theorem readUuid?_opener (hbrace : Uuid.isBrace c = false) {s : String} {cs : List Char}
    (hs : s.toList = c :: cs ∨ s.toList = '\x7b' :: c :: cs) : Uuid.read? s = none := by
  obtain ⟨rest, hrest⟩ := exists_core h hbrace hs
  unfold Uuid.read?
  simp only [hrest, readHex?_opener h]
  split <;> rfl

end Identifiers

/-! ### Collections -/

namespace Value

theorem toList_braced {open_ : String} {c : Char} (h : open_.toList = [c]) (close body : String) :
    (braced open_ close body).toList = c :: (body.toList ++ close.toList) := by
  simp [braced, h]

theorem toList_bracket : "[".toList = ['['] := by decide

theorem toList_parenthesis : "(".toList = ['('] := by decide

theorem toList_brace : "\x7b".toList = ['\x7b'] := by decide

theorem endsSolid_braced {close : String} (h : EndsSolid close) (open_ body : String) :
    EndsSolid (braced open_ close body) := h.append _

theorem plainText_list (items : List Value) :
    (list items).plainText = braced "[" "]" (joinWith ", " (literals items)) := by
  simp [plainText, literal]

theorem plainText_map (entries : List (String × Value)) :
    (map entries).plainText = braced "\x7b" "\x7d" (joinWith ", " (entryLiterals entries)) := by
  simp [plainText, literal]

theorem exists_plainText_tuple (items : List Value) :
    ∃ close body, EndsSolid close ∧ (tuple items).plainText = braced "(" close body := by
  have hclose : EndsSolid ")" := ⟨')', by decide, by decide⟩
  rcases items with _ | ⟨item, _ | ⟨second, rest⟩⟩
  · exact ⟨")", _, hclose, by simp [plainText, literal]; rfl⟩
  · exact ⟨",)", item.literal, hclose.append ",", by simp [plainText, literal]⟩
  · exact ⟨")", _, hclose, by simp [plainText, literal]; rfl⟩

/-- The quote of the first key stands behind the brace of a mapping. -/
theorem exists_toList_entryLiterals (entry : String × Value) (rest : List (String × Value)) :
    ∃ c ∈ openers, Uuid.isBrace c = false ∧
      ∃ cs, (joinWith ", " (entryLiterals (entry :: rest))).toList = c :: cs := by
  obtain ⟨key, v⟩ := entry
  refine ⟨quoteMark key.toList, ?_, ?_, ?_⟩
  · unfold quoteMark
    split <;> decide
  · unfold quoteMark
    split <;> decide
  · have hquote : ∃ cs, (quote key).toList = quoteMark key.toList :: cs := by
      rw [quote, String.toList_ofList]
      exact ⟨_, rfl⟩
    obtain ⟨cs, hcs⟩ := hquote
    cases hrest : entryLiterals rest with
    | nil => simp [joinWith, entryLiterals, hrest, hcs]
    | cons second more => simp [joinWith, entryLiterals, hrest, hcs]

/-- What holds of lists, tuples and mappings holds of every value that holds further values. -/
@[elab_as_elim]
theorem nested_cases {motive : Value → Prop} {v : Value} (h : v.isNested = true)
    (list : ∀ items, motive (.list items)) (tuple : ∀ items, motive (.tuple items))
    (map : ∀ entries, motive (.map entries)) : motive v := by
  cases v with
  | list items => exact list items
  | tuple items => exact tuple items
  | map entries => exact map entries
  | _ => cases h

variable {v : Value} (h : v.isNested = true)
include h

theorem exists_toList_plainText : ∃ c ∈ openers, ∃ cs, v.plainText.toList = c :: cs := by
  refine nested_cases h ?_ ?_ ?_
  · intro items
    exact ⟨'[', by decide, _, by rw [plainText_list, toList_braced toList_bracket]⟩
  · intro items
    obtain ⟨close, body, -, htext⟩ := exists_plainText_tuple items
    exact ⟨'(', by decide, _, by rw [htext, toList_braced toList_parenthesis]⟩
  · intro entries
    exact ⟨'\x7b', by decide, _, by rw [plainText_map, toList_braced toList_brace]⟩

theorem strip_plainText : strip v.plainText = v.plainText := by
  obtain ⟨c, hc, cs, hcs⟩ := exists_toList_plainText h
  refine strip_eq_self hcs (isBlank_opener hc) ?_
  refine nested_cases h ?_ ?_ ?_
  · intro items
    rw [plainText_list]
    exact endsSolid_braced ⟨']', by decide, by decide⟩ _ _
  · intro items
    obtain ⟨close, body, hclose, htext⟩ := exists_plainText_tuple items
    rw [htext]
    exact endsSolid_braced hclose _ _
  · intro entries
    rw [plainText_map]
    exact endsSolid_braced ⟨'\x7d', by decide, by decide⟩ _ _

theorem readUuid?_plainText : Uuid.read? v.plainText = none := by
  refine nested_cases h ?_ ?_ ?_
  · intro items
    rw [plainText_list]
    exact readUuid?_opener (by decide) (by decide) (.inl (toList_braced toList_bracket _ _))
  · intro items
    obtain ⟨close, body, -, htext⟩ := exists_plainText_tuple items
    rw [htext]
    exact readUuid?_opener (by decide) (by decide) (.inl (toList_braced toList_parenthesis _ _))
  · rintro (_ | ⟨entry, rest⟩)
    · decide
    · obtain ⟨c, hc, hbrace, cs, hcs⟩ := exists_toList_entryLiterals entry rest
      have htext := toList_braced toList_brace "\x7d"
        (joinWith ", " (entryLiterals (entry :: rest)))
      rw [hcs] at htext
      rw [plainText_map]
      exact readUuid?_opener hc hbrace (.inr htext)

end Value

namespace Coercion

variable {v : Value} (h : v.isNested = true)
include h

theorem toInteger?_nested : toInteger? v = .ok none := by
  have hread : toInteger? v = .ok ((readInteger? v.plainText).map Value.int) := by
    refine Value.nested_cases h ?_ ?_ ?_ <;> exact fun _ => rfl
  obtain ⟨c, hc, cs, hcs⟩ := Value.exists_toList_plainText h
  rw [hread, readInteger?_opener hc hcs, Option.map_none]

theorem toFloat?_nested : toFloat? v = .ok none := by
  have hread : toFloat? v = .ok ((Double.read? (strip v.plainText)).map Value.float) := by
    refine Value.nested_cases h ?_ ?_ ?_ <;> exact fun _ => rfl
  obtain ⟨c, hc, cs, hcs⟩ := Value.exists_toList_plainText h
  rw [hread, Value.strip_plainText h, readDouble?_opener hc hcs, Option.map_none]

theorem text?_nested : text? v = some v.plainText := by
  refine Value.nested_cases h ?_ ?_ ?_ <;> exact fun _ => rfl

theorem toDecimal?_nested : toDecimal? v = none := by
  have hread : toDecimal? v =
      (text? v).bind fun s => (Decimal.read? s).map Value.decimal := by
    refine Value.nested_cases h ?_ ?_ ?_ <;> exact fun _ => rfl
  obtain ⟨c, hc, cs, hcs⟩ := Value.exists_toList_plainText h
  rw [hread, text?_nested h, Option.bind_some, readDecimal?_opener hc hcs, Option.map_none]

theorem toBool?_nested : toBool? v = none := by
  have hread : toBool? v =
      let word := foldCase (strip v.plainText)
      if trueWords.contains word then some (.bool true)
      else if falseWords.contains word then some (.bool false)
      else none := by
    refine Value.nested_cases h ?_ ?_ ?_ <;> exact fun _ => rfl
  obtain ⟨c, hc, cs, hcs⟩ := Value.exists_toList_plainText h
  obtain ⟨htrue, hfalse⟩ := foldCase_notMem_words hc hcs
  rw [hread, Value.strip_plainText h]
  simp [htrue, hfalse]

theorem toDate?_nested : toDate? v = none := by
  have hread : toDate? v =
      let s := strip v.plainText
      if hasTimePart s then (readMomentText? s).map fun m => .date m.date
      else (Calendar.readDate? s).map Value.date := by
    refine Value.nested_cases h ?_ ?_ ?_ <;> exact fun _ => rfl
  obtain ⟨c, hc, cs, hcs⟩ := Value.exists_toList_plainText h
  rw [hread, Value.strip_plainText h]
  simp [readMomentText?_opener hc hcs, (readDate?_opener hc hcs).1]

theorem toMoment?_nested : toMoment? v = none := by
  have hread : toMoment? v =
      (text? v).bind fun s => (readDayOrMoment? (strip s)).map fun m => .moment m.orUtc := by
    refine Value.nested_cases h ?_ ?_ ?_ <;> exact fun _ => rfl
  obtain ⟨c, hc, cs, hcs⟩ := Value.exists_toList_plainText h
  rw [hread, text?_nested h, Option.bind_some, Value.strip_plainText h]
  simp [readDayOrMoment?, readMomentText?_opener hc hcs, (readDate?_opener hc hcs).1]

theorem toUuid?_nested : toUuid? v = none := by
  have hread : toUuid? v = (Uuid.read? (strip v.plainText)).map Value.uuid := by
    refine Value.nested_cases h ?_ ?_ ?_ <;> exact fun _ => rfl
  rw [hread, Value.strip_plainText h, Value.readUuid?_plainText h, Option.map_none]

theorem convert?_nested (kind : ColumnKind) : convert? kind v = .ok none := by
  cases kind with
  | integer => rw [convert?, toInteger?_nested h]
  | float => rw [convert?, toFloat?_nested h]
  | numeric => rw [convert?, toDecimal?_nested h]
  | boolean => rw [convert?, toBool?_nested h]
  | date => rw [convert?, toDate?_nested h]
  | moment => rw [convert?, toMoment?_nested h]
  | uuid => rw [convert?, toUuid?_nested h]
  | text | json | raw => rfl

/-- A list, a tuple or a mapping is left as it is, whatever the column. -/
theorem coerce_nested (kind : ColumnKind) : coerce kind v = .ok v := by
  have hnull : v.isNull = false := by
    refine Value.nested_cases h ?_ ?_ ?_ <;> exact fun _ => rfl
  rw [coerce_of_ne_null kind hnull, convert?_nested h kind]
  rfl

end Coercion

end TableApi
