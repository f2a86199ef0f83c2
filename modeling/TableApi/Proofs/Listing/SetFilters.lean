import TableApi.Proofs.Coercion.Texts
import TableApi.Proofs.Listing.RawFilters

/-! Filters by a set of texts. Which rows such a filter selects depends on which texts there are and
on the type of their parameters, neither on their order nor on how often a text comes. But the type
is that of the first text, so where some texts denote a value of the column and others do not, the
order decides whether the query runs. -/

namespace TableApi

open Coercion Select

/-- Whether an operator asks for the rows that do not have a value. -/
def Operator.isNegative : Operator → Bool
  | .neq | .notIn => true
  | .eq | .isIn | .gt | .gte | .lt | .lte => false

namespace Clause

/-- Membership in a list, or its contrary. -/
def among (op : Operator) (t : Term) (vs : List Value) : Clause :=
  if op.isNegative then .notIn t vs else .isIn t vs

variable {t : Term} {vs ws : List Value}

theorem parameters_among (op : Operator) (t : Term) (vs : List Value) :
    (among op t vs).parameters = vs.map fun v => (listType t vs, v) := by
  unfold among
  split <;> rfl

theorem isTooComplex_among (op : Operator) (t : Term) (vs : List Value) :
    (among op t vs).isTooComplex = false := by
  unfold among
  split <;> rfl

theorem mem_boundCells_among_iff (op : Operator) (htype : listType t vs = listType t ws)
    (hsame : ∀ v, v ∈ vs ↔ v ∈ ws) (cell : Cell) :
    cell ∈ (among op t vs).boundCells ↔ cell ∈ (among op t ws).boundCells := by
  simp only [boundCells, parameters_among, List.map_map, List.mem_map, htype, hsame]

theorem holds_among_congr (op : Operator) (htype : listType t vs = listType t ws)
    (hsame : ∀ v, v ∈ vs ↔ v ∈ ws) (model? : Option Model) (r : Row) :
    (among op t vs).holds model? r = (among op t ws).holds model? r := by
  have hcells := mem_boundCells_among_iff op htype hsame
  rw [Bool.eq_iff_iff]
  cases hneg : op.isNegative with
  | true =>
    simp only [among, hneg, if_true] at hcells ⊢
    simp only [holds, List.all_eq_true, hcells]
  | false =>
    simp only [among, hneg, Bool.false_eq_true, if_false] at hcells ⊢
    simp only [holds, List.any_eq_true, hcells]

end Clause

namespace Listing

def textSet (texts : List String) : Value := .list (texts.map Value.text)

def Runs (store : Store) (o : Options) (m : Model) (field : String) (op : Operator) (v : Value) :
    Prop :=
  ∃ rows, Selects store o m field op v rows

def setType (c : Column) (texts : List String) : ParameterType :=
  Clause.listType (.column c) (texts.map (ofText c.kind))

variable {store : Store} {o : Options} {m : Model} {field : String} {c : Column} {op : Operator}
  {rows rows' : List Row} {texts xs ys : List String} {x y : String}

/-! ### The type of a set -/

theorem setType_of_head? (h : texts.head? = some x) :
    setType c texts = textType c.kind (denotes c.kind x) := by
  obtain ⟨rest, rfl⟩ := List.head?_eq_some_iff.1 h
  simp [setType, Clause.listType, Term.kind?, isNull_ofText, compared_ofText]

theorem eq_nil_or_exists_head? (hsame : ∀ s, s ∈ xs ↔ s ∈ ys) :
    xs = [] ∧ ys = [] ∨ ∃ x y, xs.head? = some x ∧ ys.head? = some y := by
  cases xs with
  | nil => exact .inl ⟨rfl, List.eq_nil_iff_forall_not_mem.2 fun s hs => nomatch (hsame s).2 hs⟩
  | cons x rest =>
    cases ys with
    | nil => exact nomatch (hsame x).1 List.mem_cons_self
    | cons y more => exact .inr ⟨x, y, rfl, rfl⟩

theorem setType_congr (hsame : ∀ s, s ∈ xs ↔ s ∈ ys) (hfirst : c.kind.tellsTexts = true →
    xs.head?.map (denotes c.kind) = ys.head?.map (denotes c.kind)) :
    setType c xs = setType c ys := by
  rcases eq_nil_or_exists_head? hsame with ⟨rfl, rfl⟩ | ⟨x, y, hx, hy⟩
  · rfl
  · rw [setType_of_head? hx, setType_of_head? hy]
    cases htells : c.kind.tellsTexts with
    | false => simp [textType, htells]
    | true =>
      have hdenotes := hfirst htells
      rw [hx, hy] at hdenotes
      rw [Option.some.inj hdenotes]

/-! ### The rows of a set -/

theorem takes_textSet (hop : op.isOrdered = false) (texts : List String) :
    Condition.Takes op (textSet texts) := by
  refine ⟨rfl, fun hordered => absurd (hop.symm.trans hordered) nofun, ?_⟩
  rintro items hitems
  obtain rfl := Option.some.inj hitems
  exact List.forall_mem_map.2 fun _ _ => rfl

theorem clauseOf_many (hop : op.isOrdered = false) (t : Term) (vs : List Value) :
    clauseOf t op (.many vs) = .ok (Clause.among op t vs) := by
  cases op <;> first | rfl | cases hop

theorem coerceOperand_texts (c : Column) (texts : List String) :
    coerceOperand (.column c) (.many (texts.map Value.text)) =
      .ok (.many (texts.map (ofText c.kind))) := by
  have hcoerce : ∀ s, coerceFor (.column c) (.text s) = .ok (ofText c.kind s) := by
    intro s
    rw [coerceFor_column, coerce_text, mapError_ok]
  have hall : (texts.map Value.text).mapM (coerceFor (.column c)) =
      .ok (texts.map (ofText c.kind)) := by
    rw [List.mapM_map]
    exact mapM_eq_ok_map fun s _ => hcoerce s
  rw [coerceOperand, hall, Except.map]

section Filters

variable (hon : o.filtering.enabled = true) (hfield : field ∈ o.filtering.fields)
  (hcolumn : m.column? field = some c) (hop : op.isOrdered = false)
include hon hfield hcolumn hop

/-- A filter by texts runs exactly when each text can be bound, and selects the rows whose value is
one of them, or is none. -/
theorem selects_textSet_iff : Selects store o m field op (textSet texts) rows ↔
    (∀ s ∈ texts, Binds (setType c texts, ofText c.kind s)) ∧
      rows = (store.rows m).filter
        ((Clause.among op (.column c) (texts.map (ofText c.kind))).holds (some m)) := by
  have hoperand : Condition.operand? op (textSet texts) = some (.many (texts.map Value.text)) :=
    Condition.operand?_eq_some_iff.2 ⟨takes_textSet hop texts, .listed hop rfl⟩
  have hbinds : (∀ p ∈ (Clause.among op (.column c) (texts.map (ofText c.kind))).parameters,
      Binds p) ↔ ∀ s ∈ texts, Binds (setType c texts, ofText c.kind s) := by
    simp only [Clause.parameters_among, List.forall_mem_map, setType]
  constructor
  · intro h
    obtain ⟨coerced, clause, hcoerced, hclause, hbound, hrows⟩ :=
      rows_of_selects hon hfield hcolumn hoperand h
    obtain rfl := Except.ok.inj ((coerceOperand_texts c texts).symm.trans hcoerced)
    obtain rfl := Except.ok.inj ((clauseOf_many hop _ _).symm.trans hclause)
    exact ⟨hbinds.1 hbound, hrows⟩
  · rintro ⟨hbound, rfl⟩
    exact selects_of_clauseOf hon hfield hcolumn hoperand (coerceOperand_texts c texts)
      (clauseOf_many hop _ _) (hbinds.2 hbound) (Clause.isTooComplex_among _ _ _)

theorem runs_textSet_iff : Runs store o m field op (textSet texts) ↔
    ∀ s ∈ texts, Binds (setType c texts, ofText c.kind s) := by
  simp only [Runs, selects_textSet_iff hon hfield hcolumn hop, exists_and_left, exists_eq,
    and_true]

theorem selects_textSet_congr (hsame : ∀ s, s ∈ xs ↔ s ∈ ys) (htype : setType c xs = setType c ys) :
    Selects store o m field op (textSet xs) rows ↔
      Selects store o m field op (textSet ys) rows := by
  have hvalues : ∀ v, v ∈ xs.map (ofText c.kind) ↔ v ∈ ys.map (ofText c.kind) := by
    simp only [List.mem_map, hsame, implies_true]
  have hholds : (Clause.among op (.column c) (xs.map (ofText c.kind))).holds (some m) =
      (Clause.among op (.column c) (ys.map (ofText c.kind))).holds (some m) :=
    funext (Clause.holds_among_congr op htype hvalues (some m))
  simp only [selects_textSet_iff hon hfield hcolumn hop, hsame, htype, hholds]

end Filters

/-! ### Sets with other first texts -/

section First

variable (htells : c.kind.tellsTexts = true)
include htells

theorem setType_eq_parameterType (hx : xs.head? = some x) (hdenotes : denotes c.kind x = true) :
    setType c xs = c.kind.parameterType := by
  rw [setType_of_head? hx, hdenotes, textType, htells]
  rfl

theorem setType_eq_asGiven (hy : ys.head? = some y) (hnone : denotes c.kind y = false) :
    setType c ys = .asGiven := by
  have huuid : c.kind ≠ .uuid := by
    intro hkind
    rw [hkind] at htells
    cases htells
  rw [setType_of_head? hy, hnone, textType, Bool.and_false, if_neg Bool.false_ne_true,
    if_neg huuid]

end First

section Same

variable (hon : o.filtering.enabled = true) (hfield : field ∈ o.filtering.fields)
  (hcolumn : m.column? field = some c) (hop : op.isOrdered = false)
include hon hfield hcolumn hop

/-- Behind a text that denotes a value, the type of the column refuses one that does not. -/
theorem not_runs_of_denoting_first (htells : c.kind.tellsTexts = true) (hkind : c.kind ≠ .numeric)
    (hx : xs.head? = some x) (hdenotes : denotes c.kind x = true) (hy : y ∈ xs)
    (hnone : denotes c.kind y = false) : ¬ Runs store o m field op (textSet xs) := by
  intro hruns
  have hbinds := (runs_textSet_iff hon hfield hcolumn hop).1 hruns y hy
  rw [setType_eq_parameterType htells hx hdenotes] at hbinds
  exact not_binds_text htells hkind hnone hbinds

/-- Behind a text that denotes no value, all values but decimal numbers are taken as they are. -/
theorem runs_of_plain_first (htells : c.kind.tellsTexts = true) (hkind : c.kind ≠ .numeric)
    (hy : ys.head? = some y) (hnone : denotes c.kind y = false) :
    Runs store o m field op (textSet ys) := by
  refine (runs_textSet_iff hon hfield hcolumn hop).2 fun s _ => ?_
  rw [setType_eq_asGiven htells hy hnone]
  exact binds_asGiven htells hkind s

theorem not_runs_of_decimal (hkind : c.kind = .numeric) (hy : ys.head? = some y)
    (hnone : denotes c.kind y = false) (hx : x ∈ ys) (hdenotes : denotes c.kind x = true) :
    ¬ Runs store o m field op (textSet ys) := by
  intro hruns
  have hbinds := (runs_textSet_iff hon hfield hcolumn hop).1 hruns x hx
  rw [setType_eq_asGiven (by rw [hkind]; rfl) hy hnone, hkind] at hbinds
  exact not_binds_decimal (hkind ▸ hdenotes) hbinds

/-- A set of texts with a decimal number first runs when all of them are numerals. -/
theorem runs_of_decimal_first_iff (hkind : c.kind = .numeric) (hx : xs.head? = some x)
    (hdenotes : denotes c.kind x = true) : Runs store o m field op (textSet xs) ↔
      ∀ s ∈ xs, Binds (.number, ofText .numeric s) := by
  rw [runs_textSet_iff hon hfield hcolumn hop,
    setType_eq_parameterType (by rw [hkind]; rfl) hx hdenotes, hkind]
  rfl

section Members

variable (hsame : ∀ s, s ∈ xs ↔ s ∈ ys)
include hsame

/-- Not both queries run if a text that denotes a value comes first in one set and a text that does
not in the other. -/
theorem not_runs_both (htells : c.kind.tellsTexts = true) (hx : xs.head? = some x)
    (hy : ys.head? = some y) (hdenotes : denotes c.kind x = true)
    (hnone : denotes c.kind y = false) :
    ¬ (Runs store o m field op (textSet xs) ∧ Runs store o m field op (textSet ys)) := by
  rintro ⟨hxs, hys⟩
  by_cases hkind : c.kind = .numeric
  · have hmem := (hsame x).1 (List.mem_of_head? hx)
    exact not_runs_of_decimal hon hfield hcolumn hop hkind hy hnone hmem hdenotes hys
  · have hmem := (hsame y).2 (List.mem_of_head? hy)
    exact not_runs_of_denoting_first hon hfield hcolumn hop htells hkind hx hdenotes hmem hnone hxs

/-- Where both queries run, their parameters are of one type. -/
theorem setType_eq_of_runs (hxs : Runs store o m field op (textSet xs))
    (hys : Runs store o m field op (textSet ys)) : setType c xs = setType c ys := by
  have hsame' : ∀ s, s ∈ ys ↔ s ∈ xs := fun s => (hsame s).symm
  refine setType_congr hsame fun htells => ?_
  rcases eq_nil_or_exists_head? hsame with ⟨rfl, rfl⟩ | ⟨x, y, hx, hy⟩
  · rfl
  · rw [hx, hy]
    refine congrArg some ?_
    cases hdx : denotes c.kind x <;> cases hdy : denotes c.kind y
    · rfl
    · exact absurd ⟨hys, hxs⟩
        (not_runs_both hon hfield hcolumn hop hsame' htells hy hx hdy hdx)
    · exact absurd ⟨hxs, hys⟩
        (not_runs_both hon hfield hcolumn hop hsame htells hx hy hdx hdy)
    · rfl

end Members

/-- The same texts, in another order or number, select the same rows where both queries run, and
both run or neither does if the texts that come first both denote a value of the column or both do
not. If one does and the other does not, a column of truth values, floating-point numbers, dates or
times refuses the texts behind the one that does, and a column of decimal numbers the texts behind
the one that does not. -/
theorem selects_of_same_texts (hsame : ∀ s, s ∈ xs ↔ s ∈ ys) :
    (∀ rows rows', Selects store o m field op (textSet xs) rows →
      Selects store o m field op (textSet ys) rows' → rows = rows') ∧
    ((c.kind.tellsTexts = true →
      xs.head?.map (denotes c.kind) = ys.head?.map (denotes c.kind)) →
        ∀ rows, Selects store o m field op (textSet xs) rows ↔
          Selects store o m field op (textSet ys) rows) ∧
    ∀ x y, c.kind.tellsTexts = true → xs.head? = some x → ys.head? = some y →
      denotes c.kind x = true → denotes c.kind y = false →
        (c.kind ≠ .numeric → ¬ Runs store o m field op (textSet xs) ∧
          Runs store o m field op (textSet ys)) ∧
        (c.kind = .numeric → ¬ Runs store o m field op (textSet ys) ∧
          (Runs store o m field op (textSet xs) ↔
            ∀ s ∈ xs, Binds (.number, ofText .numeric s))) := by
  refine ⟨fun rows rows' hxs hys => ?_, fun hfirst rows => ?_,
    fun x y htells hx hy hdenotes hnone => ⟨?_, ?_⟩⟩
  · have htype := setType_eq_of_runs hon hfield hcolumn hop hsame ⟨rows, hxs⟩ ⟨rows', hys⟩
    have hys' := (selects_textSet_congr hon hfield hcolumn hop hsame htype).1 hxs
    exact (((selects_textSet_iff hon hfield hcolumn hop).1 hys').2).trans
      ((selects_textSet_iff hon hfield hcolumn hop).1 hys).2.symm
  · exact selects_textSet_congr hon hfield hcolumn hop hsame (setType_congr hsame hfirst)
  · intro hkind
    exact ⟨not_runs_of_denoting_first hon hfield hcolumn hop htells hkind hx hdenotes
        ((hsame y).2 (List.mem_of_head? hy)) hnone,
      runs_of_plain_first hon hfield hcolumn hop htells hkind hy hnone⟩
  · intro hkind
    exact ⟨not_runs_of_decimal hon hfield hcolumn hop hkind hy hnone
        ((hsame x).1 (List.mem_of_head? hx)) hdenotes,
      runs_of_decimal_first_iff hon hfield hcolumn hop hkind hx hdenotes⟩

end Same

/-- An article that is featured, one that is not, and one of which it is not known. -/
def markedArticles : Store :=
  [⟨articles, [⟨1, [("id", .integer 1), ("featured", .integer 1)]⟩,
    ⟨2, [("id", .integer 2), ("featured", .integer 0)]⟩,
    ⟨3, [("id", .integer 3), ("featured", .null)]⟩]⟩]

/-- The featured article is found behind a word that is no truth value. -/
theorem selects_of_maybe_true :
    (featuredFilter.filtering.enabled = true ∧ "featured" ∈ featuredFilter.filtering.fields ∧
      articles.column? "featured" = some (Column.plain "featured" .boolean) ∧
      Operator.isIn.isOrdered = false ∧
      ∀ s, s ∈ ["maybe", "true"] ↔ s ∈ ["maybe", "true", "maybe"]) ∧
    ∃ rows, rows.map Row.number = [1] ∧
      Selects markedArticles featuredFilter articles "featured" .isIn
        (textSet ["maybe", "true"]) rows ∧
      Selects markedArticles featuredFilter articles "featured" .isIn
        (textSet ["maybe", "true", "maybe"]) rows := by
  have hon : featuredFilter.filtering.enabled = true := rfl
  have hfield : "featured" ∈ featuredFilter.filtering.fields := by decide
  have hcolumn : articles.column? "featured" = some (Column.plain "featured" .boolean) := rfl
  have hop : Operator.isIn.isOrdered = false := rfl
  have hsame : ∀ s, s ∈ ["maybe", "true"] ↔ s ∈ ["maybe", "true", "maybe"] := by
    intro s
    simp only [List.mem_cons, List.not_mem_nil, or_false]
    tauto
  have hruns : Runs markedArticles featuredFilter articles "featured" .isIn
      (textSet ["maybe", "true"]) :=
    runs_of_plain_first (y := "maybe") hon hfield hcolumn hop rfl nofun rfl rfl
  obtain ⟨rows, hselects⟩ := hruns
  have hrows : rows.map Row.number = [1] := by
    rw [((selects_textSet_iff hon hfield hcolumn hop).1 hselects).2]
    decide +kernel
  have hselects' : Selects markedArticles featuredFilter articles "featured" .isIn
      (textSet ["maybe", "true", "maybe"]) rows :=
    ((selects_of_same_texts hon hfield hcolumn hop hsame).2.1 (fun _ => rfl) rows).1 hselects
  exact ⟨⟨hon, hfield, hcolumn, hop, hsame⟩, rows, hrows, hselects, hselects'⟩

/-- The same word behind a truth value makes the query fail. -/
theorem not_runs_true_maybe :
    (∀ s, s ∈ ["true", "maybe"] ↔ s ∈ ["maybe", "true"]) ∧
      (¬ Runs markedArticles featuredFilter articles "featured" .isIn
        (textSet ["true", "maybe"])) ∧
      Runs markedArticles featuredFilter articles "featured" .isIn
        (textSet ["maybe", "true"]) := by
  have hon : featuredFilter.filtering.enabled = true := rfl
  have hfield : "featured" ∈ featuredFilter.filtering.fields := by decide
  have hcolumn : articles.column? "featured" = some (Column.plain "featured" .boolean) := rfl
  refine ⟨fun s => ?_, ?_, ?_⟩
  · simp only [List.mem_cons, List.not_mem_nil, or_false]
    exact or_comm
  · exact not_runs_of_denoting_first (x := "true") (y := "maybe") hon hfield hcolumn rfl rfl nofun
      rfl rfl (by decide) rfl
  · exact runs_of_plain_first (y := "maybe") hon hfield hcolumn rfl rfl nofun rfl rfl

end Listing

end TableApi
