import TableApi.Proofs.Listing.TextFilters
import TableApi.Proofs.Text.Commas

/-! The conditions that are read from a raw filter, whatever it is. What a raw filter of a field
says is told by three relations: which operator and operand it chooses, whether the operator takes
the operand, and what it leaves of it. A field yields a condition exactly when the three agree, and
the operand of the condition has the shape that its operator compares with. -/

namespace TableApi

open Text

theorem Operator.ofWord?_eq_some_iff {word : String} {op : Operator} :
    ofWord? word = some op ↔ word = op.word := by
  constructor
  · intro h
    unfold ofWord? at h
    have hword := List.find?_some h
    exact (beq_iff_eq.1 hword).symm
  · rintro rfl
    exact Listing.ofWord?_word op

theorem Operator.ofWord?_eq_none_iff {word : String} :
    ofWord? word = none ↔ ∀ op : Operator, word ≠ op.word := by
  rw [Option.eq_none_iff_forall_ne_some]
  exact forall_congr' fun op => not_congr ofWord?_eq_some_iff

/-- The entries of a mapping, of which other values have none. -/
def Value.entries : Value → Entries Value
  | map entries => entries
  | _ => []

theorem Value.isNested_eq_false_iff {v : Value} :
    v.isNested = false ↔ v.isMap = false ∧ v.items? = none := by
  cases v <;> simp [isNested, isMap, items?]

inductive Operand.IsFlat : Operand → Prop where
  | one {v : Value} (hv : v.isNested = false) : IsFlat (.one v)
  | many {vs : List Value} (hvs : ∀ v ∈ vs, v.isNested = false) : IsFlat (.many vs)

namespace Condition

variable {fields : List String} {field : String} {raw v : Value} {op : Operator}
  {operand : Operand} {c : Condition}

/-! ### What a raw filter of a field says -/

/-- A raw filter chooses an operator and an operand: a mapping the first operator that it names, and
any other value equality with itself. -/
inductive Chooses : Value → Operator → Value → Prop where
  | equality {v : Value} (hmap : v.isMap = false) : Chooses v .eq v
  | first {before : Entries Value} (op : Operator) (v : Value) (after : Entries Value)
      (hbefore : ∀ word ∈ Entries.keys before, ∀ other : Operator, word ≠ other.word) :
      Chooses (.map (before ++ (op.word, v) :: after)) op v

/-- An operator takes a value: no mapping, nothing listed where it compares by order, and nothing
nested in what is listed. -/
structure Takes (op : Operator) (v : Value) : Prop where
  notMap : v.isMap = false
  single : op.isOrdered = true → v.items? = none
  flat : ∀ items, v.items? = some items → ∀ item ∈ items, item.isNested = false

/-- What is left of a value as the operand of an operator. -/
inductive Leaves : Operator → Value → Operand → Prop where
  | listed {op : Operator} {v : Value} {items : List Value} (hop : op.isOrdered = false)
      (hitems : v.items? = some items) : Leaves op v (.many items)
  | alone {op : Operator} {v : Value} (hop : op = .isIn ∨ op = .notIn) (hitems : v.items? = none) :
      Leaves op v (.many [v])
  | compared {op : Operator} {v : Value} (hop : op.isOrdered = true) (hitems : v.items? = none) :
      Leaves op v (.one v)
  | split {op : Operator} {s : String} {parts : List String} (hop : op = .eq ∨ op = .neq)
      (hcomma : ',' ∈ s.toList) (hparts : Lists s parts)
      (hlistable : ∀ part ∈ parts, IsListable part) :
      Leaves op (.text s) (.many (parts.map Value.text))
  | whole {op : Operator} {v : Value} (hop : op = .eq ∨ op = .neq) (hitems : v.items? = none)
      (hcomma : Listing.hasComma v = false) : Leaves op v (.one v)

theorem choose?_eq_some_iff : choose? raw = some (op, v) ↔ Chooses raw op v := by
  constructor
  · intro h
    cases raw with
    | map entries =>
      obtain ⟨before, ⟨word, w⟩, after, rfl, hword, hbefore⟩ := List.findSome?_eq_some_iff.1 h
      obtain ⟨found, hfound, heq⟩ := Option.map_eq_some_iff.1 hword
      obtain ⟨rfl, rfl⟩ := Prod.mk.inj heq
      obtain rfl := Operator.ofWord?_eq_some_iff.1 hfound
      refine .first _ _ after fun other hother => Operator.ofWord?_eq_none_iff.1 ?_
      obtain ⟨entry, hentry, rfl⟩ := List.mem_map.1 hother
      exact Option.map_eq_none_iff.1 (hbefore entry hentry)
    | _ =>
      cases h
      exact .equality rfl
  · intro h
    cases h with
    | equality hmap => cases raw <;> first | rfl | cases hmap
    | first op v after hbefore =>
      refine List.findSome?_eq_some_iff.2 ⟨_, _, after, rfl, ?_, fun entry hentry => ?_⟩
      · exact Option.map_eq_some_iff.2 ⟨op, Operator.ofWord?_eq_some_iff.2 rfl, rfl⟩
      · exact Option.map_eq_none_iff.2
          (Operator.ofWord?_eq_none_iff.2 (hbefore _ (List.mem_map_of_mem hentry)))

/-! ### Texts with commas -/

theorem exists_text_of_hasComma (h : Listing.hasComma v = true) :
    ∃ s, v = .text s ∧ ',' ∈ s.toList := by
  cases v with
  | text s => exact ⟨s, rfl, List.contains_iff_mem.1 h⟩
  | _ => cases h

theorem splitOperand_of_comma {s : String} (h : ',' ∈ s.toList) :
    splitOperand (.text s) = .many ((commaParts s).map Value.text) :=
  if_pos (List.contains_iff_mem.2 h)

theorem splitOperand_of_noComma (h : Listing.hasComma v = false) : splitOperand v = .one v := by
  cases v with
  | text s => exact if_neg (Bool.eq_false_iff.1 h)
  | _ => rfl

theorem leaves_splitOperand (hop : op = .eq ∨ op = .neq) (hitems : v.items? = none) :
    Leaves op v (splitOperand v) := by
  cases hcomma : Listing.hasComma v with
  | false =>
    rw [splitOperand_of_noComma hcomma]
    exact .whole hop hitems hcomma
  | true =>
    obtain ⟨s, rfl, hs⟩ := exists_text_of_hasComma hcomma
    rw [splitOperand_of_comma hs]
    exact .split hop hs (lists_commaParts s) (lists_commaParts s).isListable

/-! ### The shape of an operand -/

theorem exists_leaves_of_single (op : Operator) (hitems : v.items? = none) :
    ∃ operand, Leaves op v operand := by
  cases op with
  | eq => exact ⟨_, leaves_splitOperand (.inl rfl) hitems⟩
  | neq => exact ⟨_, leaves_splitOperand (.inr rfl) hitems⟩
  | isIn => exact ⟨_, .alone (.inl rfl) hitems⟩
  | notIn => exact ⟨_, .alone (.inr rfl) hitems⟩
  | gt | gte | lt | lte => exact ⟨_, .compared rfl hitems⟩

theorem exists_leaves (h : Takes op v) : ∃ operand, Leaves op v operand := by
  cases hitems : v.items? with
  | some items =>
    have hop : op.isOrdered = false := Bool.eq_false_iff.2 fun hordered =>
      absurd (hitems.symm.trans (h.single hordered)) nofun
    exact ⟨_, .listed hop hitems⟩
  | none => exact exists_leaves_of_single op hitems

theorem shape?_of_leaves (hmap : v.isMap = false) (h : Leaves op v operand) :
    shape? op v = some operand := by
  unfold shape?
  rw [hmap, if_neg Bool.false_ne_true]
  cases h with
  | listed hop hitems =>
    rw [hitems]
    cases op <;> cases hop <;> rfl
  | alone hop hitems =>
    rw [hitems]
    rcases hop with rfl | rfl <;> rfl
  | compared hop hitems =>
    rw [hitems]
    cases op <;> cases hop <;> rfl
  | split hop hcomma hparts =>
    rw [lists_iff.1 hparts]
    rcases hop with rfl | rfl <;> exact congrArg some (splitOperand_of_comma hcomma)
  | whole hop hitems hcomma =>
    rw [hitems]
    rcases hop with rfl | rfl <;> exact congrArg some (splitOperand_of_noComma hcomma)

theorem leaves_of_shape? (h : shape? op v = some operand) :
    v.isMap = false ∧ Leaves op v operand := by
  have hmap : v.isMap = false := by
    by_contra hmap
    unfold shape? at h
    rw [if_pos (Bool.eq_true_of_not_eq_false hmap)] at h
    cases h
  refine ⟨hmap, ?_⟩
  cases hitems : v.items? with
  | some items =>
    unfold shape? at h
    rw [hmap, if_neg Bool.false_ne_true, hitems] at h
    cases op <;> cases h <;> exact .listed rfl hitems
  | none =>
    obtain ⟨left, hleft⟩ := exists_leaves_of_single op hitems
    rw [shape?_of_leaves hmap hleft] at h
    rwa [← Option.some.inj h]

theorem items?_of_leaves (h : Leaves op v operand) : v.items? = none ∨
    op.isOrdered = false ∧ ∃ items, v.items? = some items ∧ operand = .many items := by
  cases h with
  | listed hop hitems => exact .inr ⟨hop, _, hitems, rfl⟩
  | split hop hcomma hparts hlistable => exact .inl rfl
  | alone hop hitems | compared hop hitems | whole hop hitems hcomma => exact .inl hitems

theorem isFlat_of_leaves (htakes : Takes op v) (h : Leaves op v operand) : operand.IsFlat := by
  have hsingle (hitems : v.items? = none) : v.isNested = false :=
    Value.isNested_eq_false_iff.2 ⟨htakes.notMap, hitems⟩
  cases h with
  | listed hop hitems => exact .many (htakes.flat _ hitems)
  | alone hop hitems =>
    refine .many fun w hw => ?_
    rw [List.mem_singleton.1 hw]
    exact hsingle hitems
  | split hop hcomma hparts hlistable => exact .many (List.forall_mem_map.2 fun _ _ => rfl)
  | compared hop hitems | whole hop hitems hcomma => exact .one (hsingle hitems)

theorem takes_of_leaves (hmap : v.isMap = false) (h : Leaves op v operand)
    (hflat : ∀ items, operand = .many items → ∀ item ∈ items, item.isNested = false) :
    Takes op v := by
  rcases items?_of_leaves h with hnone | ⟨hop, items, hitems, rfl⟩
  · exact ⟨hmap, fun _ => hnone, fun items hitems => absurd (hnone.symm.trans hitems) nofun⟩
  · refine ⟨hmap, fun hordered => absurd (hop.symm.trans hordered) nofun, fun listed hlisted => ?_⟩
    obtain rfl := Option.some.inj (hitems.symm.trans hlisted)
    exact hflat items rfl

/-- The operand of an operator, where it takes the value. -/
theorem operand?_eq_some_iff :
    operand? op v = some operand ↔ Takes op v ∧ Leaves op v operand := by
  constructor
  · intro h
    obtain ⟨hmap, hleaves⟩ := leaves_of_shape? (shape?_of_operand? h)
    refine ⟨takes_of_leaves hmap hleaves ?_, hleaves⟩
    rintro items rfl item hitem
    unfold operand? at h
    rw [shape?_of_leaves hmap hleaves] at h
    simp only at h
    split at h
    · cases h
    · next hany =>
      exact Bool.eq_false_iff.2 fun hnested => hany (List.any_eq_true.2 ⟨item, hitem, hnested⟩)
  · rintro ⟨htakes, hleaves⟩
    unfold operand?
    rw [shape?_of_leaves htakes.notMap hleaves]
    cases isFlat_of_leaves htakes hleaves with
    | one hv => rfl
    | many hvs =>
      refine if_neg fun hany => ?_
      obtain ⟨item, hitem, hnested⟩ := List.any_eq_true.1 hany
      exact Bool.false_ne_true ((hvs item hitem).symm.trans hnested)

/-! ### The conditions of a raw filter -/

/-- The condition of one field, where the field may be filtered. -/
theorem read?_eq_some_iff : read? fields field raw = some c ↔
    field ∈ fields ∧ c.field = field ∧
      ∃ v, Chooses raw c.operator v ∧ Takes c.operator v ∧ Leaves c.operator v c.operand := by
  unfold read?
  constructor
  · intro h
    split at h
    · next hfield =>
      obtain ⟨⟨op, v⟩, hchoose, h⟩ := Option.bind_eq_some_iff.1 h
      obtain ⟨operand, hoperand, h⟩ := Option.bind_eq_some_iff.1 h
      obtain rfl := Option.some.inj h
      obtain ⟨htakes, hleaves⟩ := operand?_eq_some_iff.1 hoperand
      exact ⟨List.contains_iff_mem.1 hfield, rfl, v, choose?_eq_some_iff.1 hchoose, htakes,
        hleaves⟩
    · cases h
  · rintro ⟨hfield, rfl, v, hchooses, htakes, hleaves⟩
    rw [if_pos (List.contains_iff_mem.2 hfield), choose?_eq_some_iff.2 hchooses]
    simp only [Option.bind_eq_bind, Option.bind_some,
      operand?_eq_some_iff.2 ⟨htakes, hleaves⟩]

theorem readAll_eq_filterMap (fields : List String) (raw : Value) :
    readAll fields raw = raw.entries.filterMap fun entry => read? fields entry.1 entry.2 := by
  cases raw <;> rfl

theorem mem_readAll_iff : c ∈ readAll fields raw ↔
    ∃ given, (c.field, given) ∈ raw.entries ∧ read? fields c.field given = some c := by
  rw [readAll_eq_filterMap, List.mem_filterMap]
  constructor
  · rintro ⟨⟨field, given⟩, hmem, hread⟩
    obtain ⟨-, rfl, -⟩ := read?_eq_some_iff.1 hread
    exact ⟨given, hmem, hread⟩
  · rintro ⟨given, hmem, hread⟩
    exact ⟨_, hmem, hread⟩

theorem fields_readAll_sublist (fields : List String) (raw : Value) :
    ((readAll fields raw).map Condition.field).Sublist (Entries.keys raw.entries) := by
  rw [readAll_eq_filterMap]
  induction raw.entries with
  | nil => exact List.Sublist.slnil
  | cons entry rest ih =>
    rw [List.filterMap_cons, Entries.keys, List.map_cons, ← Entries.keys]
    cases hread : read? fields entry.1 entry.2 with
    | none => exact ih.cons entry.1
    | some c =>
      obtain ⟨-, hfield, -⟩ := read?_eq_some_iff.1 hread
      rw [← hfield]
      exact ih.cons_cons c.field

/-- The operand of a condition has the shape that its operator compares with. -/
structure IsShaped (c : Condition) : Prop where
  flat : c.operand.IsFlat
  set : c.operator = .isIn ∨ c.operator = .notIn → ∃ vs, c.operand = .many vs
  ordered : c.operator.isOrdered = true → ∃ v, c.operand = .one v
  equality : c.operator = .eq ∨ c.operator = .neq → ∀ v, c.operand = .one v →
    Listing.hasComma v = false

theorem isShaped_of_leaves {field : String} (htakes : Takes op v) (h : Leaves op v operand) :
    IsShaped ⟨field, op, operand⟩ := by
  have hflat := isFlat_of_leaves htakes h
  cases h with
  | listed hop hitems =>
    exact ⟨hflat, fun _ => ⟨_, rfl⟩, fun hordered => absurd (hop.symm.trans hordered) nofun,
      fun _ _ => nofun⟩
  | alone hop hitems =>
    refine ⟨hflat, fun _ => ⟨_, rfl⟩, fun hordered => ?_, fun _ _ => nofun⟩
    rcases hop with rfl | rfl <;> cases hordered
  | compared hop hitems =>
    refine ⟨hflat, fun hset => ?_, fun _ => ⟨v, rfl⟩, fun hequality => ?_⟩
    · rcases hset with rfl | rfl <;> cases hop
    · rcases hequality with rfl | rfl <;> cases hop
  | split hop hcomma hparts hlistable =>
    refine ⟨hflat, fun _ => ⟨_, rfl⟩, fun hordered => ?_, fun _ _ => nofun⟩
    rcases hop with rfl | rfl <;> cases hordered
  | whole hop hitems hcomma =>
    refine ⟨hflat, fun hset => ?_, fun _ => ⟨v, rfl⟩, fun _ w hw => ?_⟩
    · rcases hop with rfl | rfl <;> rcases hset with hset | hset <;> cases hset
    · obtain rfl := Operand.one.inj hw
      exact hcomma

/-- Conditions are those of a raw filter: at most one for a field, in the order of the filter, and
one for each field that may be filtered and whose operator takes the operand that comes with it. -/
structure IsReading (fields : List String) (raw : Value) (cs : List Condition) : Prop where
  order : (cs.map Condition.field).Sublist (Entries.keys raw.entries)
  once : (Entries.keys raw.entries).Nodup → (cs.map Condition.field).Nodup
  yields : ∀ field, (∃ c ∈ cs, c.field = field) ↔ field ∈ fields ∧
    ∃ given op v, (field, given) ∈ raw.entries ∧ Chooses given op v ∧ Takes op v
  operands : ∀ c ∈ cs, ∃ given v, (c.field, given) ∈ raw.entries ∧ Chooses given c.operator v ∧
    Takes c.operator v ∧ Leaves c.operator v c.operand
  shaped : ∀ c ∈ cs, c.IsShaped
  nothing : raw.entries = [] → cs = []

/-- The conditions that are read from a raw filter are its safe and well shaped ones. -/
theorem isReading_readAll (fields : List String) (raw : Value) :
    IsReading fields raw (readAll fields raw) where
  order := fields_readAll_sublist fields raw
  once h := h.sublist (fields_readAll_sublist fields raw)
  yields field := by
    constructor
    · rintro ⟨c, hc, rfl⟩
      obtain ⟨given, hmem, hread⟩ := mem_readAll_iff.1 hc
      obtain ⟨hfield, -, v, hchooses, htakes, -⟩ := read?_eq_some_iff.1 hread
      exact ⟨hfield, given, _, v, hmem, hchooses, htakes⟩
    · rintro ⟨hfield, given, op, v, hmem, hchooses, htakes⟩
      obtain ⟨operand, hleaves⟩ := exists_leaves htakes
      exact ⟨⟨field, op, operand⟩, mem_readAll_iff.2 ⟨given, hmem,
        read?_eq_some_iff.2 ⟨hfield, rfl, v, hchooses, htakes, hleaves⟩⟩, rfl⟩
  operands c hc := by
    obtain ⟨given, hmem, hread⟩ := mem_readAll_iff.1 hc
    obtain ⟨-, -, v, hsays⟩ := read?_eq_some_iff.1 hread
    exact ⟨given, v, hmem, hsays⟩
  shaped c hc := by
    obtain ⟨_, -, hread⟩ := mem_readAll_iff.1 hc
    obtain ⟨-, -, v, -, htakes, hleaves⟩ := read?_eq_some_iff.1 hread
    exact isShaped_of_leaves htakes hleaves
  nothing h := by rw [readAll_eq_filterMap, h, List.filterMap_nil]

end Condition

end TableApi
