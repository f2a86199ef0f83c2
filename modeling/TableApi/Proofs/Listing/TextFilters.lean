import Mathlib.Data.String.Basic
import TableApi.Proofs.Listing.FilteredRows
import TableApi.Proofs.Params.RoundTrip
import TableApi.Proofs.Statement.Search

/-! Filters on columns of texts, as requests can ask for them. Parameters that were parsed hold
texts, lists of texts and mappings, so every condition in them compares with one text or several. On
a column of texts such a condition always has a clause that can be bound, and the clause holds of
the rows whose text the condition admits. -/

namespace TableApi

/-! ### Conditions of texts -/

inductive Operand.IsTextual : Operand → Prop where
  | one (s : String) : IsTextual (.one (.text s))
  | many (texts : List String) : IsTextual (.many (texts.map Value.text))

def Operand.texts : Operand → List String
  | one v => [v.plainText]
  | many vs => vs.map Value.plainText

@[simp] theorem Operand.texts_many (texts : List String) :
    (many (texts.map Value.text)).texts = texts := by
  rw [Operand.texts, List.map_map]
  exact List.map_id texts

/-- Whether a text stands to those of an operand as an operator says. -/
def Operator.admits (texts : List String) (s : String) : Operator → Bool
  | eq | isIn => texts.contains s
  | neq | notIn => !texts.contains s
  | gt => texts.all (· < s)
  | gte => texts.all (· ≤ s)
  | lt => texts.all (s < ·)
  | lte => texts.all (s ≤ ·)

/-- Whether a text satisfies a condition. No text at all only satisfies that it is none of none. -/
def Condition.admits (c : Condition) : Option String → Bool
  | some s => c.operator.admits c.operand.texts s
  | none => (c.operator matches .neq | .notIn) && c.operand.texts.isEmpty

namespace Params

variable {length : Nat}

theorem value_parse (items : List Item) (name : String) :
    value (parse items) name = .null ∨ Fits 1 (value (parse items) name) := by
  unfold value
  cases hget : Entries.get? (parse items) name with
  | none => exact Or.inl rfl
  | some v => exact Or.inr ((wellFormed_parse items).toFitsAll.fits_of_get? hget)

end Params

namespace Condition

open Params

variable {length : Nat} {op : Operator} {v raw : Value}

theorem shape?_of_operand? {operand : Operand} (h : operand? op v = some operand) :
    shape? op v = some operand := by
  unfold operand? at h
  split at h
  · next items hshape =>
    split at h
    · cases h
    · rw [hshape, h]
  · exact h

theorem isTextual_splitOperand (s : String) : (splitOperand (.text s)).IsTextual := by
  unfold splitOperand
  simp only
  split
  · exact .many _
  · exact .one s

/-- What fits below a key gives an operand of texts, if any. -/
theorem isTextual_of_operand? (hv : Fits length v) {operand : Operand}
    (h : operand? op v = some operand) : operand.IsTextual := by
  have hshape := shape?_of_operand? h
  cases hv with
  | text hlength =>
    cases op with
    | eq | neq =>
      cases hshape
      exact isTextual_splitOperand _
    | isIn | notIn =>
      cases hshape
      exact .many [_]
    | gt | gte | lt | lte =>
      cases hshape
      exact .one _
  | list hlength hne => cases op <;> cases hshape <;> exact .many _
  | map => cases hshape

theorem exists_fits_of_choose? (hraw : Fits length raw) (h : choose? raw = some (op, v)) :
    ∃ length, Fits length v := by
  cases hraw with
  | text hlength =>
    cases h
    exact ⟨_, .text hlength⟩
  | list hlength hne =>
    cases h
    exact ⟨_, .list hlength hne⟩
  | map hne hnodup hkeys hvalues =>
    obtain ⟨⟨word, w⟩, hmem, hword⟩ := List.exists_of_findSome?_eq_some h
    obtain ⟨op, -, hop⟩ := Option.map_eq_some_iff.1 hword
    cases hop
    exact ⟨_, hvalues _ hmem⟩

/-- The conditions in parsed parameters compare with texts. -/
theorem isTextual_of_mem {o : Options} {items : List Item} {c : Condition}
    (h : c ∈ Listing.conditions o (parse items)) : c.operand.IsTextual := by
  unfold Listing.conditions at h
  split at h
  · rcases value_parse items o.filtering.filterParam with hnull | hfits
    · rw [hnull] at h
      cases h
    · cases hvalue : value (parse items) o.filtering.filterParam with
      | map entries =>
        rw [hvalue] at h hfits
        cases hfits with
        | map hne hnodup hkeys hvalues =>
          obtain ⟨⟨field, raw⟩, hmem, hread⟩ := List.mem_filterMap.1 h
          simp only [read?] at hread
          split at hread
          · obtain ⟨⟨op, v⟩, hchosen, hread⟩ := Option.bind_eq_some_iff.1 hread
            obtain ⟨operand, hoperand, hread⟩ := Option.bind_eq_some_iff.1 hread
            obtain ⟨length, hv⟩ := exists_fits_of_choose? (hvalues _ hmem) hchosen
            cases hread
            exact isTextual_of_operand? hv hoperand
          · cases hread
      | _ =>
        rw [hvalue] at h
        cases h
  · cases h

end Condition

namespace Listing

open Coercion Select

/-! ### Clauses on columns of texts -/

theorem typed_text (s : String) : Typed .text (.text s) := ⟨rfl, rfl, nofun⟩

theorem admits_compare {op : Operator} {cmp : Comparison} (hop : comparison? op = some cmp)
    (s t : String) : cmp.admits (compare s t) = op.admits [t] s := by
  rw [Bool.eq_iff_iff]
  cases op <;> cases hop <;>
    simp only [Comparison.admits, Operator.admits, List.all_cons, List.all_nil, Bool.and_true,
      List.contains_cons, List.contains_nil, Bool.or_false, Bool.not_eq_true', beq_iff_eq,
      bne_iff_ne, beq_eq_false_iff_ne, decide_eq_true_iff, compare_eq_iff_eq, compare_lt_iff_lt,
      compare_gt_iff_gt, ne_eq, not_lt]

theorem any_equal (texts : List String) (t : String) :
    (texts.any fun s => Comparison.equal.admits (compare t s)) = texts.contains t := by
  rw [Bool.eq_iff_iff, List.any_eq_true, List.contains_iff_mem]
  simp [Comparison.admits]

theorem all_unequal (texts : List String) (t : String) :
    (texts.all fun s => Comparison.unequal.admits (compare t s)) = !texts.contains t := by
  rw [← any_equal, List.not_any_eq_all_not]
  rfl

/-- The clause of a condition that compares texts: it can be bound, has no pattern, and holds of the
rows whose text the condition admits. -/
structure Decides (m : Model) (col : Column) (c : Condition) (clause : Clause) : Prop where
  built : clauseOfCondition (some m) c = .ok clause
  binds : ∀ p ∈ clause.parameters, Binds p
  simple : clause.isTooComplex = false
  holds : ∀ row : Row, (row.cell col.name).Belongs .text →
    clause.holds (some m) row = c.admits (row.cell col.name).text?

variable {m : Model} {col : Column} {c : Condition}

section Column

variable (hkind : col.kind = .text)
include hkind

theorem coerceOperand_of_isTextual {operand : Operand} (h : operand.IsTextual) :
    coerceOperand (.column col) operand = .ok operand := by
  have hcoerce : ∀ s, coerceFor (.column col) (.text s) = .ok (.text s) := by
    intro s
    rw [coerceFor_column, hkind]
    rfl
  cases h with
  | one s => rw [coerceOperand, hcoerce, Except.map]
  | many texts =>
    have hall : (texts.map Value.text).mapM (coerceFor (.column col)) =
        .ok (texts.map Value.text) := by
      rw [List.mapM_map]
      exact mapM_eq_ok_map fun s _ => hcoerce s
    rw [coerceOperand, hall, Except.map]

theorem clauseOfCondition_eq (hcol : m.column? c.field = some col) (h : c.operand.IsTextual) :
    clauseOfCondition (some m) c = clauseOf (.column col) c.operator c.operand := by
  have hterm : Term.ofField (some m) c.field = .column col := by simp [Term.ofField, hcol]
  rw [clauseOfCondition, hterm, coerceOperand_of_isTextual hkind h]
  rfl

theorem listType_texts (texts : List String) :
    Clause.listType (.column col) (texts.map Value.text) = .asGiven := by
  cases texts with
  | nil =>
    rw [Clause.listType, Term.kind?, hkind]
    rfl
  | cons s rest =>
    have htyped : Typed col.kind (.text s) := by
      rw [hkind]
      exact typed_text s
    rw [List.map_cons, Clause.listType_cons htyped, hkind]
    rfl

theorem binds_texts (texts : List String) :
    ∀ p ∈ (Clause.isIn (.column col) (texts.map Value.text)).parameters, Binds p := by
  intro p hp
  rw [Clause.parameters, listType_texts hkind, List.map_map] at hp
  obtain ⟨s, -, rfl⟩ := List.mem_map.1 hp
  exact ⟨.text s, rfl⟩

theorem stands_text {row : Row} (hrow : (row.cell col.name).Belongs .text) (cmp : Comparison)
    (s : String) : stands col cmp (.text s) row =
      (row.cell col.name).text?.any fun t => cmp.admits (compare t s) := by
  have htext : stands col cmp (.text s) row =
      Affinity.text.compares cmp (row.cell col.name) (.text s) := by
    rw [stands, hkind]
    rfl
  rw [htext]
  rcases hrow with hnull | ⟨t, ht⟩
  · rw [hnull]
    rfl
  · rw [ht]
    rfl

theorem typed_texts (texts : List String) : ∀ x ∈ texts.map Value.text, Typed col.kind x := by
  intro x hx
  obtain ⟨s, -, rfl⟩ := List.mem_map.1 hx
  rw [hkind]
  exact typed_text s

variable (hcol : m.column? c.field = some col)
include hcol

/-- A condition with one text compares with it, whatever the operator. -/
theorem decides_one {cmp : Comparison} (hop : comparison? c.operator = some cmp) {s : String}
    (hoperand : c.operand = .one (.text s)) :
    Decides m col c (.compare (.column col) cmp (.text s)) where
  built := by
    rw [clauseOfCondition_eq hkind hcol (hoperand ▸ .one s), hoperand, clauseOf_one_eq hop rfl]
  binds p hp := by
    rw [List.mem_singleton.1 hp, Term.kind?, hkind]
    exact ⟨.text s, rfl⟩
  simple := rfl
  holds row hrow := by
    have hstands : (Clause.compare (.column col) cmp (.text s)).holds (some m) row =
        stands col cmp (.text s) row := rfl
    rw [hstands, stands_text hkind hrow]
    cases (row.cell col.name).text? with
    | none => simp [Condition.admits, hoperand, Operand.texts]
    | some t =>
      rw [Option.any_some, admits_compare hop, Condition.admits, hoperand]
      rfl

variable (htextual : c.operand.IsTextual)
include htextual

/-- The clause of being one of the texts. -/
theorem decides_isIn (hop : c.operator = .eq ∨ c.operator = .isIn)
    (hclause : clauseOf (.column col) c.operator c.operand =
      .ok (.isIn (.column col) (c.operand.texts.map Value.text))) :
    Decides m col c (.isIn (.column col) (c.operand.texts.map Value.text)) where
  built := (clauseOfCondition_eq hkind hcol htextual).trans hclause
  binds := binds_texts hkind _
  simple := rfl
  holds row hrow := by
    have hcells := Clause.boundCells_isIn (typed_texts hkind _) (binds_texts hkind c.operand.texts)
    have hstands : (Clause.isIn (.column col) (c.operand.texts.map Value.text)).holds (some m) row =
        c.operand.texts.any fun s => stands col .equal (.text s) row := by
      simp only [Clause.holds, hcells, List.any_map]
      rfl
    rw [hstands]
    simp only [stands_text hkind hrow]
    cases (row.cell col.name).text? with
    | none => rcases hop with hop | hop <;> simp [Condition.admits, hop]
    | some t =>
      simp only [Option.any_some, any_equal, Condition.admits]
      rcases hop with hop | hop <;> rw [hop, Operator.admits]

/-- The clause of being none of the texts, which no text is not unless there are none. -/
theorem decides_notIn (hop : c.operator = .neq ∨ c.operator = .notIn)
    (hclause : clauseOf (.column col) c.operator c.operand =
      .ok (.notIn (.column col) (c.operand.texts.map Value.text))) :
    Decides m col c (.notIn (.column col) (c.operand.texts.map Value.text)) where
  built := (clauseOfCondition_eq hkind hcol htextual).trans hclause
  binds := binds_texts hkind _
  simple := rfl
  holds row hrow := by
    have hcells : (Clause.notIn (.column col) (c.operand.texts.map Value.text)).boundCells =
        (c.operand.texts.map Value.text).map (Clause.operandCell col.kind) :=
      Clause.boundCells_isIn (typed_texts hkind _) (binds_texts hkind _)
    have hstands :
        (Clause.notIn (.column col) (c.operand.texts.map Value.text)).holds (some m) row =
          c.operand.texts.all fun s => stands col .unequal (.text s) row := by
      simp only [Clause.holds, hcells, List.all_map]
      rfl
    rw [hstands]
    simp only [stands_text hkind hrow]
    cases (row.cell col.name).text? with
    | none =>
      cases htexts : c.operand.texts <;> rcases hop with hop | hop <;>
        simp [Condition.admits, hop, htexts]
    | some t =>
      simp only [Option.any_some, all_unequal, Condition.admits]
      rcases hop with hop | hop <;> rw [hop, Operator.admits]

/-- A condition that compares with texts always has its clause. -/
theorem exists_decides (hshape : c.WellShaped) : ∃ clause, Decides m col c clause := by
  generalize hoperand : c.operand = operand at htextual
  cases htextual with
  | one s =>
    have hone : c.operand.IsTextual := hoperand ▸ .one s
    cases hop : c.operator with
    | isIn => exact ⟨_, decides_isIn hkind hcol hone (Or.inr hop) (by rw [hop, hoperand]; rfl)⟩
    | notIn => exact ⟨_, decides_notIn hkind hcol hone (Or.inr hop) (by rw [hop, hoperand]; rfl)⟩
    | eq | neq | gt | gte | lt | lte =>
      exact ⟨_, decides_one hkind hcol (by rw [hop]; rfl) hoperand⟩
  | many texts =>
    have hmany : c.operand.IsTextual := hoperand ▸ .many texts
    have hunordered := hshape _ hoperand
    have htexts : c.operand.texts.map Value.text = texts.map Value.text := by
      rw [hoperand, Operand.texts_many]
    cases hop : c.operator with
    | eq | isIn =>
      refine ⟨_, decides_isIn hkind hcol hmany (by simp [hop]) ?_⟩
      rw [htexts, hop, hoperand]
      rfl
    | neq | notIn =>
      refine ⟨_, decides_notIn hkind hcol hmany (by simp [hop]) ?_⟩
      rw [htexts, hop, hoperand]
      rfl
    | gt | gte | lt | lte =>
      rw [hop] at hunordered
      cases hunordered

end Column

/-! ### All clauses together -/

variable {cs : List Condition} {clauses : List Clause}

theorem exists_clauses (h : ∀ c ∈ cs, ∃ clause, Decides m col c clause) :
    ∃ clauses, cs.mapM (clauseOfCondition (some m)) = .ok clauses ∧
      List.Forall₂ (Decides m col) cs clauses := by
  induction cs with
  | nil => exact ⟨[], rfl, .nil⟩
  | cons c rest ih =>
    obtain ⟨⟨clause, hclause⟩, hrest⟩ := List.forall_mem_cons.1 h
    obtain ⟨clauses, hmapM, hall⟩ := ih hrest
    refine ⟨clause :: clauses, ?_, .cons hclause hall⟩
    rw [List.mapM_cons]
    exact bind_eq_ok_iff.2 ⟨clause, hclause.built, bind_eq_ok_iff.2 ⟨clauses, hmapM, rfl⟩⟩

theorem exists_decides_of_mem (h : List.Forall₂ (Decides m col) cs clauses) {clause : Clause}
    (hclause : clause ∈ clauses) : ∃ c, Decides m col c clause := by
  induction h with
  | nil => cases hclause
  | cons hfirst _ ih =>
    rcases List.mem_cons.1 hclause with rfl | hrest
    · exact ⟨_, hfirst⟩
    · exact ih hrest

theorem all_holds (h : List.Forall₂ (Decides m col) cs clauses) {row : Row}
    (hrow : (row.cell col.name).Belongs .text) : clauses.all (Clause.holds (some m) row) =
      cs.all fun c => c.admits (row.cell col.name).text? := by
  induction h with
  | nil => rfl
  | cons hfirst _ ih => rw [List.all_cons, List.all_cons, hfirst.holds row hrow, ih]

end Listing
end TableApi
