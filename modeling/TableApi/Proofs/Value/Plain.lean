import Mathlib.Data.List.Forall2
import TableApi.Value.Plain

/-! The plain form of nested values. It has the outline of the value: the same keys in the same order
and lists of the same lengths, in place of tuples too. Every value in it, however deep, is of a kind
that JSON has, and so the plain form is its own plain form. -/

namespace TableApi.Value

/-! ### Values in values -/

/-- What holds of a value as soon as it holds of the values in it holds of all values. -/
@[elab_as_elim]
theorem nested_induction {motive : Value → Prop} (leaf : ∀ v, v.isNested = false → motive v)
    (list : ∀ items, (∀ item ∈ items, motive item) → motive (.list items))
    (tuple : ∀ items, (∀ item ∈ items, motive item) → motive (.tuple items))
    (map : ∀ entries, (∀ entry ∈ entries, motive entry.2) → motive (.map entries)) (v : Value) :
    motive v := by
  cases v with
  | list items => exact list items fun item _ => nested_induction leaf list tuple map item
  | tuple items => exact tuple items fun item _ => nested_induction leaf list tuple map item
  | map entries => exact map entries fun entry _ => nested_induction leaf list tuple map entry.2
  | _ => exact leaf _ rfl
termination_by sizeOf v
decreasing_by
  all_goals
    have hlt := List.sizeOf_lt_of_mem ‹_›
    simp_wf
    try have hvalue : sizeOf entry.2 < sizeOf entry := by cases entry; simp +arith
    omega

mutual

/-- The values that a value is made of at all depths, with itself in front. -/
def parts : Value → List Value
  | list items => list items :: itemParts items
  | tuple items => tuple items :: itemParts items
  | map entries => map entries :: entryParts entries
  | v => [v]

def itemParts : List Value → List Value
  | [] => []
  | item :: rest => parts item ++ itemParts rest

def entryParts : List (String × Value) → List Value
  | [] => []
  | (_, value) :: rest => parts value ++ entryParts rest

end

def leaves (v : Value) : List Value := v.parts.filter fun part => !part.isNested

/-- The outline of a value, without what stands in its leaves. A list and a tuple look alike. -/
inductive Shape where
  | leaf
  | items (parts : List Shape)
  | entries (parts : List (String × Shape))

mutual

def shape : Value → Shape
  | list items => .items (itemShapes items)
  | tuple items => .items (itemShapes items)
  | map entries => .entries (entryShapes entries)
  | _ => .leaf

def itemShapes : List Value → List Shape
  | [] => []
  | item :: rest => shape item :: itemShapes rest

def entryShapes : List (String × Value) → List (String × Shape)
  | [] => []
  | (key, value) :: rest => (key, shape value) :: entryShapes rest

end

/-- Whether a value is of a kind that data is made of. A decimal has to be finite. -/
def isDatum : Value → Bool
  | decimal (.finite _ _ _) => true
  | decimal _ | bytes _ | set _ => false
  | _ => true

/-- Whether a value is of a kind that JSON has, whatever its collections hold. -/
def isJson : Value → Bool
  | null | bool _ | int _ | float _ | text _ | list _ | map _ => true
  | _ => false

/-- What a value in a leaf is shown as. -/
inductive ShownAs : Value → Value → Prop where
  | itself {v : Value} (h : v.isJson = true) : ShownAs v v
  | date (d : Calendar.Date) : ShownAs (date d) (text d.text)
  | moment (m : Calendar.Moment) : ShownAs (moment m) (text m.text)
  | uuid (u : Uuid) : ShownAs (uuid u) (text u.text)
  | decimal {d : Decimal} {x : Double} (h : d.toDouble? = some x) : ShownAs (decimal d) (float x)

/-! ### One level -/

theorem plainItems_eq_map (items : List Value) : plainItems items = items.map plain := by
  induction items with
  | nil => rfl
  | cons item rest ih => rw [plainItems, ih, List.map_cons]

theorem plainEntries_eq_map (entries : List (String × Value)) :
    plainEntries entries = entries.map fun entry => (entry.1, entry.2.plain) := by
  induction entries with
  | nil => rfl
  | cons entry rest ih => rw [plainEntries, ih, List.map_cons]

theorem itemParts_eq_flatMap (items : List Value) : itemParts items = items.flatMap parts := by
  induction items with
  | nil => rfl
  | cons item rest ih => rw [itemParts, ih, List.flatMap_cons]

theorem entryParts_eq_flatMap (entries : List (String × Value)) :
    entryParts entries = entries.flatMap fun entry => entry.2.parts := by
  induction entries with
  | nil => rfl
  | cons entry rest ih => rw [entryParts, ih, List.flatMap_cons]

theorem itemShapes_eq_map (items : List Value) : itemShapes items = items.map shape := by
  induction items with
  | nil => rfl
  | cons item rest ih => rw [itemShapes, ih, List.map_cons]

theorem entryShapes_eq_map (entries : List (String × Value)) :
    entryShapes entries = entries.map fun entry => (entry.1, entry.2.shape) := by
  induction entries with
  | nil => rfl
  | cons entry rest ih => rw [entryShapes, ih, List.map_cons]

theorem itemsSignal_eq_any (items : List Value) : itemsSignal items = items.any signals := by
  induction items with
  | nil => rfl
  | cons item rest ih => rw [itemsSignal, ih, List.any_cons]

theorem entriesSignal_eq_any (entries : List (String × Value)) :
    entriesSignal entries = entries.any fun entry => entry.2.signals := by
  induction entries with
  | nil => rfl
  | cons entry rest ih => rw [entriesSignal, ih, List.any_cons]

variable {v x : Value}

theorem isNested_plain (v : Value) : v.plain.isNested = v.isNested := by
  cases v with
  | decimal d => cases hd : d.toDouble? <;> simp [plain, hd, isNested]
  | _ => rfl

theorem parts_leaf (h : v.isNested = false) : v.parts = [v] := by
  cases v with
  | list | tuple | map => cases h
  | _ => rfl

theorem shape_leaf (h : v.isNested = false) : v.shape = .leaf := by
  cases v with
  | list | tuple | map => cases h
  | _ => rfl

theorem isJson_plain (h : v.isDatum = true) : v.plain.isJson = true := by
  cases v with
  | decimal d => cases d <;> first | rfl | cases h
  | bytes | set => cases h
  | _ => rfl

theorem shownAs_plain (h : v.isDatum = true) (hleaf : v.isNested = false) :
    ShownAs v v.plain := by
  cases v with
  | list | tuple | map => cases hleaf
  | bytes | set => cases h
  | date d => exact .date d
  | moment m => exact .moment m
  | uuid u => exact .uuid u
  | decimal d =>
    cases d with
    | finite negative coefficient exponent => exact .decimal rfl
    | infinite | nan => cases h
  | _ => exact .itself rfl

/-! ### All levels -/

section Parts

variable {P : Value → Prop} {items : List Value} {entries : List (String × Value)}

theorem forall_parts_list : (∀ part ∈ (list items).parts, P part) ↔
    P (list items) ∧ ∀ item ∈ items, ∀ part ∈ item.parts, P part := by
  rw [parts, itemParts_eq_flatMap, List.forall_mem_cons, List.forall_mem_flatMap]

theorem forall_parts_tuple : (∀ part ∈ (tuple items).parts, P part) ↔
    P (tuple items) ∧ ∀ item ∈ items, ∀ part ∈ item.parts, P part := by
  rw [parts, itemParts_eq_flatMap, List.forall_mem_cons, List.forall_mem_flatMap]

theorem forall_parts_map : (∀ part ∈ (map entries).parts, P part) ↔
    P (map entries) ∧ ∀ entry ∈ entries, ∀ part ∈ entry.2.parts, P part := by
  rw [parts, entryParts_eq_flatMap, List.forall_mem_cons, List.forall_mem_flatMap]

end Parts

theorem shape_plain (v : Value) : v.plain.shape = v.shape := by
  induction v using nested_induction with
  | leaf v h => rw [shape_leaf h, shape_leaf ((isNested_plain v).trans h)]
  | list items ih | tuple items ih =>
    rw [plain, plainItems_eq_map, shape, shape, itemShapes_eq_map, itemShapes_eq_map, List.map_map]
    exact congrArg Shape.items (List.map_congr_left ih)
  | map entries ih =>
    rw [plain, plainEntries_eq_map, shape, shape, entryShapes_eq_map, entryShapes_eq_map,
      List.map_map]
    exact congrArg Shape.entries <|
      List.map_congr_left fun entry hentry => congrArg (Prod.mk entry.1) (ih entry hentry)

theorem parts_plain (v : Value) : v.plain.parts = v.parts.map plain := by
  induction v using nested_induction with
  | leaf v h => rw [parts_leaf h, parts_leaf ((isNested_plain v).trans h), List.map_singleton]
  | list items ih | tuple items ih =>
    rw [parts, List.map_cons, plain, parts, plainItems_eq_map, itemParts_eq_flatMap,
      itemParts_eq_flatMap, List.flatMap_map, List.map_flatMap, List.flatMap_congr ih]
  | map entries ih =>
    rw [parts, List.map_cons, plain, parts, plainEntries_eq_map, entryParts_eq_flatMap,
      entryParts_eq_flatMap, List.flatMap_map, List.map_flatMap, List.flatMap_congr ih]

theorem leaves_plain (v : Value) : v.plain.leaves = v.leaves.map plain := by
  rw [leaves, parts_plain, List.filter_map, leaves]
  congr 1
  exact List.filter_congr fun part _ => congrArg not (isNested_plain part)

/-- What is made of the kinds of JSON is its own plain form. -/
theorem plain_eq_self (h : ∀ part ∈ v.parts, part.isJson = true) : v.plain = v := by
  induction v using nested_induction with
  | leaf v hleaf =>
    have hjson : v.isJson = true := h v (parts_leaf hleaf ▸ List.mem_singleton_self v)
    cases v with
    | list | map => cases hleaf
    | null | bool | int | float | text => rfl
    | _ => cases hjson
  | list items ih =>
    have hitems := (forall_parts_list.1 h).2
    rw [plain, plainItems_eq_map, List.map_congr_left fun item hitem => ih item hitem
      (hitems item hitem), List.map_id']
  | tuple items _ => cases (forall_parts_tuple.1 h).1
  | map entries ih =>
    have hentries := (forall_parts_map.1 h).2
    rw [plain, plainEntries_eq_map, List.map_congr_left fun entry hentry => congrArg
      (Prod.mk entry.1) (ih entry hentry (hentries entry hentry)), List.map_id']

/-- Data holds no decimal that signals. -/
theorem signals_eq_false (h : ∀ part ∈ v.parts, part.isDatum = true) : v.signals = false := by
  induction v using nested_induction with
  | leaf v hleaf =>
    have hdatum : v.isDatum = true := h v (parts_leaf hleaf ▸ List.mem_singleton_self v)
    cases v with
    | list | tuple | map => cases hleaf
    | decimal d => cases d <;> first | rfl | cases hdatum
    | _ => rfl
  | list items ih =>
    have hitems := (forall_parts_list.1 h).2
    rw [signals, itemsSignal_eq_any, List.any_eq_false]
    exact fun item hitem => ne_true_of_eq_false (ih item hitem (hitems item hitem))
  | tuple items ih =>
    have hitems := (forall_parts_tuple.1 h).2
    rw [signals, itemsSignal_eq_any, List.any_eq_false]
    exact fun item hitem => ne_true_of_eq_false (ih item hitem (hitems item hitem))
  | map entries ih =>
    have hentries := (forall_parts_map.1 h).2
    rw [signals, entriesSignal_eq_any, List.any_eq_false]
    exact fun entry hentry => ne_true_of_eq_false (ih entry hentry (hentries entry hentry))

theorem isDatum_of_isJson (h : v.isJson = true) : v.isDatum = true := by
  cases v <;> first | rfl | cases h

/-- A value in plain form: with the outline of the value, each leaf shown, of the kinds of JSON
throughout, and with itself as its plain form. -/
structure IsPlainForm (v x : Value) : Prop where
  shape : x.shape = v.shape
  leaves : List.Forall₂ ShownAs v.leaves x.leaves
  kinds : ∀ part ∈ x.parts, part.isJson = true
  fixed : x.plain? = some x

/-- Data at any depth has a plain form, which is plain. -/
theorem exists_plainForm (h : ∀ part ∈ v.parts, part.isDatum = true) :
    ∃ x, v.plain? = some x ∧ IsPlainForm v x := by
  have hkinds : ∀ part ∈ v.plain.parts, part.isJson = true := by
    rw [parts_plain, List.forall_mem_map]
    exact fun part hpart => isJson_plain (h part hpart)
  have hsignals : v.plain.signals = false :=
    signals_eq_false fun part hpart => isDatum_of_isJson (hkinds part hpart)
  refine ⟨v.plain, by rw [plain?, signals_eq_false h]; rfl, shape_plain v, ?_, hkinds, ?_⟩
  · rw [leaves_plain, List.forall₂_map_right_iff, List.forall₂_same]
    intro leaf hleaf
    obtain ⟨hpart, hend⟩ := List.mem_filter.1 hleaf
    exact shownAs_plain (h leaf hpart) (by simpa using hend)
  · rw [plain?, hsignals, plain_eq_self hkinds]
    rfl

def offer : Value := .map [("price", .decimal (.finite false 150 (-2))),
  ("days", .tuple [.date ⟨2025, 3, 4, by decide⟩, .list [.null]])]

theorem offer_plainForm : (∀ part ∈ offer.parts, part.isDatum = true) ∧
    offer.plain? = some (.map [("price", .float (.ofDecimal false 150 (-2))),
      ("days", .list [.text "2025-03-04", .list [.null]])]) ∧
    IsPlainForm offer (.map [("price", .float (.ofDecimal false 150 (-2))),
      ("days", .list [.text "2025-03-04", .list [.null]])]) := by
  have hdata : ∀ part ∈ offer.parts, part.isDatum = true := by decide
  have hplain : offer.plain? = some (.map [("price", .float (.ofDecimal false 150 (-2))),
      ("days", .list [.text "2025-03-04", .list [.null]])]) := by rfl
  obtain ⟨x, hx, hform⟩ := exists_plainForm hdata
  obtain rfl := Option.some.inj (hplain.symm.trans hx)
  exact ⟨hdata, hplain, hform⟩

end TableApi.Value
