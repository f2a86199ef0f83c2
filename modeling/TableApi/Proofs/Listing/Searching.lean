import TableApi.Posts.Model
import TableApi.Proofs.Listing.FilteredRows
import TableApi.Proofs.Statement.Search
import TableApi.Proofs.Text.Ends

/-! What a search does to a listing. It keeps the rows in which one of the searched text columns
holds the term, and it keeps them in their order. Every character of the term stands for itself, so
in ordinary texts to hold the term is to contain it, letters compared without regard to case. The
store cuts texts and terms at a null character, takes a few characters for one, and does not match
terms beyond a length. -/

namespace TableApi.Listing

open Select Text

def searchColumns (o : Options.Searching) (model? : Option Model) : List Column :=
  (o.fields.filterMap fun field => model?.bind (·.column? field)).filter (·.kind = .text)

/-- Whether a term is found in the characters that the store sees in a cell. It sees none in
null. -/
def CellHolds (term : String) (cell : Cell) : Prop :=
  ∃ seen, Clause.searchChars cell = some seen ∧ Pattern.Sees term.toList seen

instance (term : String) (cell : Cell) : Decidable (CellHolds term cell) :=
  decidable_of_iff _ (Clause.holdsTerm_iff term)

/-- Whether a row holds a term in one of some columns. -/
def RowHolds (columns : List Column) (term : String) (row : Row) : Prop :=
  ∃ c ∈ columns, CellHolds term (row.cell c.name)

instance (columns : List Column) (term : String) (row : Row) :
    Decidable (RowHolds columns term row) :=
  inferInstanceAs (Decidable (∃ c ∈ columns, CellHolds term (row.cell c.name)))

/-- A statement `t` gives the rows of `s` that hold a term, in the order of `s`. It runs when `s`
does, unless the store would match a row against a term that is too long for it. -/
structure Keeps (columns : List Column) (term : String) (s t : Select) : Prop where
  narrows : ∃ clause, t = { s with clauses := s.clauses ++ [clause] }
  rows : ∀ store, t.rowsOf store = (s.rowsOf store).filter fun row => RowHolds columns term row
  runs : ∀ store, t.check store = .ok () ↔ s.check store = .ok () ∧
    (Pattern.byteCount term + 2 ≤ Pattern.maxBytes ∨ s.rowsOf store = [])

/-! ### Ordinary texts -/

/-- A text without null characters and without the noncharacters that the store does not tell from
others. -/
def IsOrdinary (text : List Char) : Prop :=
  ∀ c ∈ text, c.toNat ≠ 0 ∧ c.toNat ≠ 0xFFFE ∧ c.toNat ≠ 0xFFFF

instance (text : List Char) : Decidable (IsOrdinary text) := List.decidableBAll _ text

variable {text : List Char}

theorem IsOrdinary.null_notMem (h : IsOrdinary text) : '\x00' ∉ text :=
  fun hmem => (h _ hmem).1 rfl

theorem IsOrdinary.seenChar_eq (h : IsOrdinary text) {c : Char} (hc : c ∈ text) : seenChar c = c :=
  if_neg fun hc' => hc'.elim (h c hc).2.1 (h c hc).2.2

/-- In an ordinary text an ordinary term is found where the text contains it. -/
theorem sees_iff_infix {term : List Char} (hterm : IsOrdinary term) (htext : IsOrdinary text) :
    Pattern.Sees term (text.map seenChar) ↔
      term.map Char.toLower <:+: text.map Char.toLower := by
  have hseen : text.map seenChar = text :=
    (List.map_congr_left fun c hc => htext.seenChar_eq hc).trans (List.map_id text)
  have hfold : term.map Pattern.fold = term.map Char.toLower := by
    apply List.map_congr_left
    intro c hc
    rw [Pattern.fold, ← toLower_seenChar, hterm.seenChar_eq hc]
  rw [Pattern.Sees, if_neg hterm.null_notMem, hseen, hfold,
    Pattern.untilNull_of_notMem htext.null_notMem]

/-! ### The clause -/

variable {o : Options.Searching} {params : Entries Value} {s : Select}

theorem searchText?_eq_some {raw : String} (htext : Params.value params o.searchParam = .text raw)
    (hterm : strip raw ≠ "") : searchText? o params = some (strip raw) := by
  unfold searchText?
  rw [htext]
  simp [hterm]

theorem searchText?_eq_none
    (hblank : ∀ raw, Params.value params o.searchParam = .text raw → strip raw = "") :
    searchText? o params = none := by
  unfold searchText?
  split
  · next raw htext => simp [hblank raw htext]
  · rfl

theorem isSearchable_column (c : Column) : isSearchable (.column c) = decide (c.kind = .text) := by
  cases h : c.kind <;> simp [isSearchable, Term.kind?, h]

theorem filter_isSearchable_eq {model? : Option Model}
    (hmapped : ∀ field ∈ o.fields, (model?.bind (·.column? field)).isSome) :
    (o.fields.map (Term.ofField model?)).filter isSearchable =
      (searchColumns o model?).map .column := by
  have hcolumns : o.fields.map (Term.ofField model?) =
      (o.fields.filterMap fun field => model?.bind (·.column? field)).map .column := by
    rw [List.map_filterMap, ← List.filterMap_eq_map]
    apply List.filterMap_congr
    intro field hfield
    obtain ⟨c, hc⟩ := Option.isSome_iff_exists.1 (hmapped field hfield)
    simp [Term.ofField, hc]
  rw [hcolumns, List.filter_map, searchColumns]
  congr 1
  exact List.filter_congr fun c _ => isSearchable_column c

theorem searched_eq_addClause {raw : String}
    (hmapped : ∀ field ∈ o.fields, (s.model?.bind (·.column? field)).isSome)
    (htext : Params.value params o.searchParam = .text raw) (hterm : strip raw ≠ "")
    (hcolumns : searchColumns o s.model? ≠ []) : searched o params s =
      addClause s (.search ((searchColumns o s.model?).map .column) (strip raw)) := by
  unfold searched
  rw [searchText?_eq_some htext hterm, filter_isSearchable_eq hmapped]
  cases h : searchColumns o s.model? with
  | nil => exact absurd h hcolumns
  | cons c rest => rfl

theorem holds_search_eq (model? : Option Model) (columns : List Column) (term : String) (row : Row) :
    Clause.holds model? row (.search (columns.map .column) term) =
      decide (RowHolds columns term row) := by
  rw [Bool.eq_iff_iff, decide_eq_true_iff, Clause.holds, List.any_map, List.any_eq_true]
  exact exists_congr fun c => and_congr_right fun _ => Clause.holdsTerm_iff term

/-- With the clause of a search a statement keeps the rows that hold the term. -/
theorem keeps_extended (hs : s.isWindowed = false) (columns : List Column) (term : String) :
    Keeps columns term s (extended s [.search (columns.map .column) term] []) where
  narrows := ⟨.search (columns.map .column) term, by simp [extended]⟩
  rows store := by
    rw [rowsOf_extended hs]
    exact List.filter_congr fun row _ => holds_search_eq s.model? columns term row
  runs store := by
    have hterms : ∀ t ∈ (Clause.search (columns.map .column) term).terms, ∃ d, t = .column d := by
      intro t ht
      obtain ⟨d, -, rfl⟩ := List.mem_map.1 ht
      exact ⟨d, rfl⟩
    have hreached : (∃ r ∈ s.source store, s.clauses.all (Clause.holds s.model? r) = true) ↔
        s.rowsOf store ≠ [] := by
      simp only [Ne, List.eq_nil_iff_forall_not_mem, not_forall, not_not, mem_rowsOf_iff hs]
    have hlength : (Clause.search (columns.map .column) term).isTooComplex = true ↔
        Pattern.maxBytes < Pattern.byteCount term + 2 := Pattern.isTooLong_holding_iff term
    rw [check_extended_iff (binds_search _ _) hterms, hreached, hlength, not_and_or, not_lt,
      not_not]

/-- A search keeps the rows in which one of the searched text columns holds the stripped text. Where
there is nothing to search for or nowhere to look for it, it keeps all rows. A null holds nothing,
and of ordinary texts an ordinary one holds those that it contains, where letters of the basic
alphabet are compared without regard to case and every other character with itself. -/
theorem search_keeps_rows_that_hold
    (hmapped : ∀ field ∈ o.fields, (s.model?.bind (·.column? field)).isSome) :
    ((∀ raw, Params.value params o.searchParam = .text raw → strip raw = "") ∨
        searchColumns o s.model? = [] → searched o params s = .ok s) ∧
      (∀ raw, Params.value params o.searchParam = .text raw → strip raw ≠ "" →
        searchColumns o s.model? ≠ [] →
          if s.isWindowed then searched o params s = .error .filterAfterLimit
          else ∃ t, searched o params s = .ok t ∧
            Keeps (searchColumns o s.model?) (strip raw) s t) ∧
      (∀ term, ¬ CellHolds term .null) ∧
      ∀ term text : String, IsOrdinary term.toList → IsOrdinary text.toList →
        (CellHolds term (.text text) ↔
          term.toList.map Char.toLower <:+: text.toList.map Char.toLower) := by
  refine ⟨?_, ?_, ?_, ?_⟩
  · rintro (hblank | hnowhere)
    · simp [searched, searchText?_eq_none hblank]
    · unfold searched
      rw [filter_isSearchable_eq hmapped, hnowhere]
      split <;> rfl
  · intro raw htext hterm hcolumns
    rw [searched_eq_addClause hmapped htext hterm hcolumns]
    split
    · next hwindow => simp [addClause, hwindow]
    · next hwindow =>
      have hs : s.isWindowed = false := by simpa using hwindow
      exact ⟨_, addClause_eq hs _, keeps_extended hs _ _⟩
  · rintro term ⟨seen, hseen, -⟩
    cases hseen
  · intro term text hterm htext
    rw [← sees_iff_infix hterm htext]
    simp [CellHolds, Clause.searchChars]

def searchTitles : Options.Searching := ⟨true, "q", ["id", "title"]⟩

def offers : Store :=
  [⟨Posts.model, [⟨1, [("id", .integer 1), ("title", .text "50%_OFF/now")]⟩,
    ⟨2, [("id", .integer 2), ("title", .text "50 OFF now")]⟩, ⟨3, [("id", .integer 3)]⟩]⟩]

/-- The signs of a pattern are searched for as they stand. -/
theorem offers_searched : ∃ t,
    searched searchTitles [("q", .text " %_off/ ")] (.all Posts.model) = .ok t ∧
    t.check offers = .ok () ∧ (t.rowsOf offers).map Row.number = [1] ∧
    (CellHolds "%_off/" (.text "50%_OFF/now") ↔
      "%_off/".toList.map Char.toLower <:+: "50%_OFF/now".toList.map Char.toLower) := by
  obtain ⟨-, hkeeps, -, hordinary⟩ := @search_keeps_rows_that_hold searchTitles
    [("q", .text " %_off/ ")] (.all Posts.model) (by decide)
  obtain ⟨t, ht, hkeeps⟩ := hkeeps " %_off/ " rfl (by decide) (by decide)
  refine ⟨t, ht, (hkeeps.runs offers).2 ⟨rfl, by decide⟩, ?_,
    hordinary _ _ (by decide) (by decide)⟩
  rw [hkeeps.rows]
  decide

def cutTitle : Store := [⟨Posts.model, [⟨1, [("id", .integer 1), ("title", .text "a\x00b")]⟩]⟩]

def letters (n : Nat) : String := String.ofList (List.replicate n 'a')

theorem strip_letters (n : Nat) : strip (letters n) = letters n := by
  have hkept : ∀ c ∈ List.replicate n 'a', isBlank c = false := by
    intro c hc
    rw [List.eq_of_mem_replicate hc]
    decide
  rw [letters, strip, String.toList_ofList, stripChars, trimChars_eq_self_of_forall hkept]

theorem le_byteCount_letters (n : Nat) : n ≤ Pattern.byteCount (letters n) := by
  have hletter : 'a'.utf8Size = 1 := rfl
  have hsize : (letters n).utf8ByteSize = n := by
    rw [letters, Pattern.utf8ByteSize_ofList, List.map_replicate, hletter, List.sum_replicate_nat,
      Nat.mul_one]
  calc n = (letters n).utf8ByteSize := hsize.symm
    _ ≤ Pattern.byteCount (letters n) := Nat.le_add_right _ _

/-- The store does not match a title against a term that is too long. -/
theorem exists_searched_letters {n : Nat} (hn : Pattern.maxBytes ≤ n) : ∃ t,
    searched searchTitles [("q", .text (letters n))] (.all Posts.model) = .ok t ∧
      t.check cutTitle ≠ .ok () := by
  have hlong : Pattern.maxBytes ≤ Pattern.byteCount (strip (letters n)) := by
    rw [strip_letters]
    exact hn.trans (le_byteCount_letters n)
  have hterm : strip (letters n) ≠ "" := by
    intro h
    rw [h] at hlong
    exact absurd hlong (by decide)
  have hsearched := @searched_eq_addClause searchTitles [("q", .text (letters n))]
    (.all Posts.model) (letters n) (by decide) rfl hterm (by decide)
  refine ⟨_, hsearched.trans (addClause_eq rfl _), fun hcheck => ?_⟩
  obtain ⟨-, hshort | hnone⟩ := ((keeps_extended rfl _ _).runs cutTitle).1 hcheck
  · omega
  · exact absurd hnone (by decide)

/-- To be found is not the same as to be contained: nothing is found behind a null character, one
noncharacter is found where another character is looked for, and a long term is not looked for. -/
theorem found_ne_contained :
    (∃ t, searched searchTitles [("q", .text "b")] (.all Posts.model) = .ok t ∧
      t.check cutTitle = .ok () ∧ t.rowsOf cutTitle = [] ∧
      ((Select.all Posts.model).rowsOf cutTitle).map (Row.cell · "title") = [.text "a\x00b"] ∧
      "b".toList.map Char.toLower <:+: "a\x00b".toList.map Char.toLower) ∧
    (CellHolds "\ufffd" (.text "\uffff") ∧
      ¬ "\ufffd".toList.map Char.toLower <:+: "\uffff".toList.map Char.toLower) ∧
    ∃ t, searched searchTitles [("q", .text (letters Pattern.maxBytes))] (.all Posts.model) = .ok t ∧
      t.check cutTitle ≠ .ok () :=
  ⟨⟨_, rfl, rfl, rfl, rfl, ⟨['a', '\x00'], [], rfl⟩⟩, by decide, exists_searched_letters le_rfl⟩

end TableApi.Listing
