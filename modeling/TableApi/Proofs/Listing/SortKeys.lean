import Mathlib.Logic.Relation
import TableApi.Listing.Compile
import TableApi.Proofs.Statement.Order
import TableApi.Proofs.Text.Commas

/-! The keys that a sort text asks for. A piece of the text between two commas names a field and a
direction; of each field the first piece counts, and of the fields those that the options let a
request sort by. Pieces that are blank, that name no such field or that repeat a field ask for
nothing. The keys order rows lexicographically, as the sort terms of the statement do. -/

namespace TableApi

open Text

/-- A column to sort by, with a direction. -/
structure SortKey where
  column : Column
  direction : Direction
  deriving Repr

namespace SortKey

/-! ### Keys of a text -/

def pieces (raw : String) : List (List Char) := raw.toList.splitOn ','

def IsBlank (piece : List Char) : Prop := stripChars piece = []

instance (piece : List Char) : Decidable (IsBlank piece) :=
  inferInstanceAs (Decidable (_ = []))

/-- What a stripped piece asks for: its sign tells the direction. -/
def signed (fallback : Direction) (cs : List Char) : SortTerm :=
  if cs.head? = some '-' then ⟨strip (String.ofList cs.tail), .descending⟩
  else if cs.head? = some '+' then ⟨strip (String.ofList cs.tail), .ascending⟩
  else ⟨String.ofList cs, fallback⟩

def read (fallback : Direction) (piece : List Char) : SortTerm := signed fallback (stripChars piece)

/-- What pieces ask for, the blank ones left out. -/
def asked (fallback : Direction) (ps : List (List Char)) : List SortTerm :=
  (ps.filter fun piece => ¬ IsBlank piece).map (read fallback)

/-- The column of a field that a request may sort by: one of the allowed fields, or any mapped field
when none are listed. -/
def column? (allowed : List String) (model? : Option Model) (field : String) : Option Column :=
  if allowed = [] ∨ field ∈ allowed then model?.bind (·.column? field) else none

def ofTerm? (o : Options.Sorting) (model? : Option Model) (t : SortTerm) : Option SortKey :=
  (column? o.allowed model? t.field).map (⟨·, t.direction⟩)

/-- The keys that pieces ask for: of each field its first piece, if one may sort by the field. -/
def ofPieces (o : Options.Sorting) (model? : Option Model) (ps : List (List Char)) : List SortKey :=
  ((asked o.defaultDirection ps).eraseDupsBy fun a b => a.field == b.field).filterMap
    (ofTerm? o model?)

theorem signed_eq_ofPart (fallback : Direction) (s : String) :
    signed fallback s.toList = SortTerm.ofPart fallback s := by
  unfold SortTerm.ofPart
  split
  · next rest h => simp [signed, h]
  · next rest h => simp [signed, h]
  · next hminus hplus =>
    have hhead : ∀ c, (∀ rest, s.toList ≠ c :: rest) → s.toList.head? ≠ some c := by
      intro c hc hhead
      obtain ⟨rest, hrest⟩ := List.head?_eq_some_iff.1 hhead
      exact hc rest hrest
    rw [signed, if_neg (hhead _ hminus), if_neg (hhead _ hplus), String.ofList_toList]

theorem readAll_eq_asked (fallback : Direction) (raw : String) :
    SortTerm.readAll fallback raw = asked fallback (pieces raw) := by
  unfold SortTerm.readAll commaParts splitAt asked pieces
  rw [splitChars_eq_splitOn, List.map_map, List.filter_map, List.map_map]
  have hblank : (fun part : String => !part.isEmpty) ∘ (strip ∘ String.ofList) =
      fun piece => decide (¬ IsBlank piece) := by
    funext piece
    rw [Bool.eq_iff_iff, decide_eq_true_iff]
    simp [strip, IsBlank]
  have hread : SortTerm.ofPart fallback ∘ strip ∘ String.ofList = read fallback := by
    funext piece
    simp only [Function.comp, ← signed_eq_ofPart, strip, String.toList_ofList, read]
  rw [hblank, hread]

theorem firstOfEach_eq_eraseDupsBy (seen : List String) (ts : List SortTerm) :
    SortTerm.firstOfEach seen ts =
      (ts.filter fun t => t.field ∉ seen).eraseDupsBy fun a b => a.field == b.field := by
  induction ts generalizing seen with
  | nil => rfl
  | cons t rest ih =>
    rw [SortTerm.firstOfEach]
    by_cases h : t.field ∈ seen
    · rw [if_pos (List.contains_iff_mem.2 h), List.filter_cons_of_neg (by simpa using h), ih]
    · rw [if_neg (mt List.contains_iff_mem.1 h), List.filter_cons_of_pos (by simpa using h),
        List.eraseDupsBy_cons, List.filter_filter, ih]
      congr 2
      apply List.filter_congr
      intro u _
      simp [List.mem_cons, not_or]

/-- The key of a sort term, as the statement has it. -/
def toOrdered (k : SortKey) : Ordered := ⟨.column k.column, some k.direction⟩

theorem sortTerm?_eq {allowed : List String} {model? : Option Model}
    (hmapped : ∀ field ∈ allowed, (model?.bind (·.column? field)).isSome) (field : String) :
    Listing.sortTerm? allowed model? field = (column? allowed model? field).map Term.column := by
  unfold Listing.sortTerm? column?
  by_cases hempty : allowed = []
  · simp [hempty]
  · by_cases hfield : field ∈ allowed
    · obtain ⟨c, hc⟩ := Option.isSome_iff_exists.1 (hmapped field hfield)
      simp [hempty, hfield, Term.ofField, hc]
    · simp [hempty, hfield]

/-- When the allowed fields are mapped, the sort terms of a text are the keys that it asks for. -/
theorem sortTerms_eq {o : Options.Sorting} {params : Entries Value} {model? : Option Model}
    {raw : String} (hmapped : ∀ field ∈ o.allowed, (model?.bind (·.column? field)).isSome)
    (htext : Params.value params o.sortParam = .text raw) :
    Listing.sortTerms o params model? = (ofPieces o model? (pieces raw)).map toOrdered := by
  have hterms : SortTerm.firstOfEach [] (SortTerm.readAll o.defaultDirection raw) =
      (asked o.defaultDirection (pieces raw)).eraseDupsBy fun a b => a.field == b.field := by
    rw [readAll_eq_asked, firstOfEach_eq_eraseDupsBy]
    simp
  unfold Listing.sortTerms ofPieces
  rw [htext, List.map_filterMap, ← hterms]
  apply List.filterMap_congr
  intro t _
  rw [sortTerm?_eq hmapped, ofTerm?, Option.map_map, Option.map_map]
  rfl

/-! ### Pieces that ask for nothing -/

/-- A piece that asks for nothing behind others: it is blank, one may not sort by its field, or its
field came before. -/
inductive IsIdle (o : Options.Sorting) (model? : Option Model) (front : List (List Char))
    (piece : List Char) : Prop
  | blank (h : IsBlank piece)
  | unknown (h : column? o.allowed model? (read o.defaultDirection piece).field = none)
  | repeated (earlier : List Char) (hmem : earlier ∈ front) (hasks : ¬ IsBlank earlier)
      (h : (read o.defaultDirection earlier).field = (read o.defaultDirection piece).field)

/-- What is left of pieces when one is left out that asks for nothing. -/
inductive Drops (o : Options.Sorting) (model? : Option Model) :
    List (List Char) → List (List Char) → Prop
  | drop (front : List (List Char)) (piece : List Char) (back : List (List Char))
      (h : IsIdle o model? front piece) : Drops o model? (front ++ piece :: back) (front ++ back)

theorem firstOfEach_of_mem {seen : List String} {t : SortTerm} (h : t.field ∈ seen)
    (ts : List SortTerm) : SortTerm.firstOfEach seen (t :: ts) = SortTerm.firstOfEach seen ts :=
  if_pos (List.contains_iff_mem.2 h)

theorem firstOfEach_of_notMem {seen : List String} {t : SortTerm} (h : t.field ∉ seen)
    (ts : List SortTerm) :
    SortTerm.firstOfEach seen (t :: ts) = t :: SortTerm.firstOfEach (t.field :: seen) ts :=
  if_neg (mt List.contains_iff_mem.1 h)

theorem firstOfEach_congr {seen seen' : List String} {ts : List SortTerm}
    (h : ∀ t ∈ ts, t.field ∈ seen ↔ t.field ∈ seen') :
    SortTerm.firstOfEach seen ts = SortTerm.firstOfEach seen' ts := by
  rw [firstOfEach_eq_eraseDupsBy, firstOfEach_eq_eraseDupsBy]
  congr 1
  apply List.filter_congr
  intro t ht
  simp only [h t ht]

/-- Terms can be selected by their field before or after those of a seen field are left out. -/
theorem firstOfEach_filter (q : String → Bool) (seen : List String) (ts : List SortTerm) :
    SortTerm.firstOfEach seen (ts.filter fun t => q t.field) =
      (SortTerm.firstOfEach seen ts).filter fun t => q t.field := by
  induction ts generalizing seen with
  | nil => rfl
  | cons t rest ih =>
    rw [List.filter_cons]
    by_cases hseen : t.field ∈ seen
    · rw [firstOfEach_of_mem hseen, ← ih]
      by_cases hq : q t.field = true
      · rw [if_pos hq, firstOfEach_of_mem hseen]
      · rw [if_neg hq]
    · rw [firstOfEach_of_notMem hseen, List.filter_cons, ← ih]
      by_cases hq : q t.field = true
      · rw [if_pos hq, if_pos hq, firstOfEach_of_notMem hseen]
      · -- No selected term has the field of the one that is left out.
        rw [if_neg hq, if_neg hq]
        apply firstOfEach_congr
        intro u hu
        have hne : u.field ≠ t.field := fun heq => hq (heq ▸ (List.mem_filter.1 hu).2)
        simp [hne]

theorem firstOfEach_append_cons {seen : List String} {front back : List SortTerm} {t : SortTerm}
    (h : t.field ∈ seen ∨ t.field ∈ front.map SortTerm.field) :
    SortTerm.firstOfEach seen (front ++ t :: back) = SortTerm.firstOfEach seen (front ++ back) := by
  induction front generalizing seen with
  | nil => exact firstOfEach_of_mem (h.resolve_right List.not_mem_nil) back
  | cons u front ih =>
    rw [List.cons_append, List.cons_append]
    rw [List.map_cons, List.mem_cons, or_left_comm] at h
    by_cases hu : u.field ∈ seen
    · rw [firstOfEach_of_mem hu, firstOfEach_of_mem hu]
      exact ih (h.elim (fun heq => .inl (heq ▸ hu)) id)
    · rw [firstOfEach_of_notMem hu, firstOfEach_of_notMem hu, ih]
      rw [List.mem_cons, or_assoc]
      exact h

variable {o : Options.Sorting} {model? : Option Model}

theorem ofPieces_eq_firstOfEach (ps : List (List Char)) : ofPieces o model? ps =
    (SortTerm.firstOfEach [] (asked o.defaultDirection ps)).filterMap (ofTerm? o model?) := by
  rw [ofPieces, firstOfEach_eq_eraseDupsBy]
  simp

theorem ofPieces_eq_of_filter (ps : List (List Char)) : ofPieces o model? ps =
    (SortTerm.firstOfEach [] ((asked o.defaultDirection ps).filter fun t =>
      (column? o.allowed model? t.field).isSome)).filterMap (ofTerm? o model?) := by
  rw [firstOfEach_filter fun field => (column? o.allowed model? field).isSome,
    ofPieces_eq_firstOfEach, List.filterMap_filter]
  apply List.filterMap_congr
  intro t _
  cases h : column? o.allowed model? t.field <;> simp [ofTerm?, h]

/-- A piece that asks for nothing can be left out. -/
theorem ofPieces_eq_of_drops {ps kept : List (List Char)} (h : Drops o model? ps kept) :
    ofPieces o model? ps = ofPieces o model? kept := by
  obtain ⟨front, piece, back, hidle⟩ := h
  by_cases hblank : IsBlank piece
  · simp [ofPieces, asked, hblank]
  have hasked : asked o.defaultDirection (front ++ piece :: back) =
      asked o.defaultDirection front ++
        read o.defaultDirection piece :: asked o.defaultDirection back := by
    simp [asked, hblank]
  have hkept : asked o.defaultDirection (front ++ back) =
      asked o.defaultDirection front ++ asked o.defaultDirection back := by
    simp [asked]
  cases hidle with
  | blank h => exact absurd h hblank
  | unknown h =>
    rw [ofPieces_eq_of_filter, ofPieces_eq_of_filter, hasked, hkept, List.filter_append,
      List.filter_append, List.filter_cons_of_neg (by simp [h])]
  | repeated earlier hmem hasks h =>
    have hfield : (read o.defaultDirection piece).field ∈
        (asked o.defaultDirection front).map SortTerm.field := by
      rw [← h]
      exact List.mem_map_of_mem (List.mem_map_of_mem (List.mem_filter.2 ⟨hmem, by simpa using hasks⟩))
    rw [ofPieces_eq_firstOfEach, ofPieces_eq_firstOfEach, hasked, hkept,
      firstOfEach_append_cons (.inr hfield)]

theorem ofPieces_eq_of_reflTransGen {ps kept : List (List Char)}
    (h : Relation.ReflTransGen (Drops o model?) ps kept) :
    ofPieces o model? ps = ofPieces o model? kept := by
  induction h with
  | refl => rfl
  | tail _ hstep ih => exact ih.trans (ofPieces_eq_of_drops hstep)

theorem sublist_of_reflTransGen {ps kept : List (List Char)}
    (h : Relation.ReflTransGen (Drops o model?) ps kept) : kept.Sublist ps := by
  induction h with
  | refl => exact List.Sublist.refl _
  | tail _ hstep ih =>
    obtain ⟨front, piece, back, -⟩ := hstep
    exact ((List.sublist_cons_self piece back).append_left front).trans ih

/-- The text of the pieces that are left asks for the same keys. -/
theorem ofPieces_intercalate {raw : String} {kept : List (List Char)}
    (h : Relation.ReflTransGen (Drops o model?) (pieces raw) kept) :
    ofPieces o model? (pieces (String.ofList ([','].intercalate kept))) =
      ofPieces o model? (pieces raw) := by
  rw [ofPieces_eq_of_reflTransGen h]
  by_cases hempty : kept = []
  · rw [hempty]
    rfl
  · have hcommas : ∀ piece ∈ kept, ',' ∉ piece := fun piece hpiece =>
      notMem_of_mem_splitOn ((sublist_of_reflTransGen h).subset hpiece)
    rw [pieces, String.toList_ofList, List.splitOn_intercalate ',' hcommas hempty]

/-! ### The order of rows -/

/-- How one key orders two rows. -/
def order (k : SortKey) (a b : Row) : Ordering :=
  match k.direction with
  | .ascending => (a.cell k.column.name).order (b.cell k.column.name)
  | .descending => (b.cell k.column.name).order (a.cell k.column.name)

/-- Keys put a row before another: the first key that tells them apart does. -/
def Precedes (keys : List SortKey) (a b : Row) : Prop :=
  ∃ front k back, keys = front ++ k :: back ∧ (∀ j ∈ front, j.order a b = .eq) ∧ k.order a b = .lt

/-- No key tells two rows apart. -/
def Tied (keys : List SortKey) (a b : Row) : Prop := ∀ k ∈ keys, k.order a b = .eq

instance (keys : List SortKey) : DecidableRel (Tied keys) := fun a b =>
  inferInstanceAs (Decidable (∀ k ∈ keys, k.order a b = .eq))

theorem termOrder_toOrdered (k : SortKey) (a b : Row) :
    Select.termOrder model? k.toOrdered a b = k.order a b := by
  unfold Select.termOrder order toOrdered
  cases k.direction <;> rfl

theorem precedes_cons_iff {k : SortKey} {rest : List SortKey} {a b : Row} :
    Precedes (k :: rest) a b ↔ k.order a b = .lt ∨ k.order a b = .eq ∧ Precedes rest a b := by
  constructor
  · rintro ⟨front, j, back, hkeys, htied, hless⟩
    cases front with
    | nil =>
      obtain ⟨rfl, -⟩ := List.cons.inj hkeys
      exact .inl hless
    | cons first front =>
      obtain ⟨rfl, rfl⟩ := List.cons.inj hkeys
      obtain ⟨hfirst, hfront⟩ := List.forall_mem_cons.1 htied
      exact .inr ⟨hfirst, front, j, back, rfl, hfront, hless⟩
  · rintro (hless | ⟨hfirst, front, j, back, rfl, hfront, hless⟩)
    · exact ⟨[], k, rest, rfl, List.forall_mem_nil _, hless⟩
    · exact ⟨k :: front, j, back, rfl, List.forall_mem_cons.2 ⟨hfirst, hfront⟩, hless⟩

/-- In the order of the statement a row is less than another when the keys put it first. -/
theorem rowOrder_eq_lt_iff (keys : List SortKey) (a b : Row) :
    Select.rowOrder model? (keys.map toOrdered) a b = .lt ↔ Precedes keys a b := by
  induction keys with
  | nil => simp [Select.rowOrder, Precedes]
  | cons k rest ih =>
    rw [List.map_cons, Select.rowOrder_cons, termOrder_toOrdered, Ordering.then_eq_lt, ih,
      precedes_cons_iff]

/-- Rows that no key tells apart are equal in the order of the statement. -/
theorem rowOrder_eq_eq_iff (keys : List SortKey) (a b : Row) :
    Select.rowOrder model? (keys.map toOrdered) a b = .eq ↔ Tied keys a b := by
  induction keys with
  | nil => simp [Select.rowOrder, Tied]
  | cons k rest ih =>
    rw [List.map_cons, Select.rowOrder_cons, termOrder_toOrdered, Ordering.then_eq_eq, ih]
    simp only [Tied, List.forall_mem_cons]

theorem order_of_null (k : SortKey) {a b : Row} (ha : a.cell k.column.name = .null)
    (hb : b.cell k.column.name ≠ .null) :
    match k.direction with
    | .ascending => k.order a b = .lt
    | .descending => k.order b a = .lt := by
  cases h : k.direction <;> simp only [order, h, ha, Cell.order_null_left hb]

end SortKey

end TableApi
