import TableApi.Proofs.Params.RoundTrip

/-! Items and the roots of their keys. What is read at a root depends on the items with this root
alone, so items between others leave there what they leave on their own. A text is read there exactly
when the last of them has the bare root as its key. -/

namespace TableApi.Params

def Item.root? (item : Item) : Option String := (splitKey? item.key).bind List.head?

section WriteAt

variable {f : Option Value → Value} {path : List String} {entries others : Entries Value}
  {name : String}

theorem get?_writeAt_of_ne (h : path.head? ≠ some name) :
    Entries.get? (writeAt f path entries) name = Entries.get? entries name := by
  cases path with
  | nil => rfl
  | cons key rest =>
    have hkey : key ≠ name := fun heq => h (congrArg some heq)
    cases rest <;> exact Entries.get?_put_of_ne hkey _ _

theorem get?_writeAt_congr (h : Entries.get? entries name = Entries.get? others name) :
    Entries.get? (writeAt f path entries) name = Entries.get? (writeAt f path others) name := by
  by_cases hroot : path.head? = some name
  · obtain ⟨rest, rfl⟩ := List.head?_eq_some_iff.1 hroot
    cases rest with
    | nil => rw [writeAt, writeAt, Entries.get?_put_self, Entries.get?_put_self, h]
    | cons key more =>
      have hbelow : below entries name = below others name := by rw [below, below, h]
      rw [writeAt_cons_of_ne_nil (List.cons_ne_nil key more),
        writeAt_cons_of_ne_nil (List.cons_ne_nil key more), Entries.get?_put_self,
        Entries.get?_put_self, hbelow]
  · rw [get?_writeAt_of_ne hroot, get?_writeAt_of_ne hroot, h]

end WriteAt

variable {entries others : Entries Value} {name : String} {items before after : List Item}

theorem head?_path_of_writing? {item : Item} {w : Writing} (h : item.writing? = some w) :
    w.path.head? = item.root? := by
  have hne := path_ne_nil_of_writing? h
  obtain ⟨path, hsplit, rfl⟩ := Option.map_eq_some_iff.1 h
  rw [Item.root?, hsplit, Option.bind_some]
  split
  · next hlast =>
    rw [if_pos hlast] at hne
    rw [← List.dropLast_append_getLast? "" hlast, List.dropLast_concat,
      List.head?_append_of_ne_nil _ hne]
  · rfl

theorem get?_write_of_root_ne {item : Item} (h : item.root? ≠ some name) :
    Entries.get? (write entries item) name = Entries.get? entries name := by
  rw [write_eq]
  cases hw : item.writing? with
  | none => rfl
  | some w => exact get?_writeAt_of_ne (head?_path_of_writing? hw ▸ h)

theorem get?_write_congr (item : Item) (h : Entries.get? entries name = Entries.get? others name) :
    Entries.get? (write entries item) name = Entries.get? (write others item) name := by
  rw [write_eq, write_eq]
  cases item.writing? with
  | none => exact h
  | some w => exact get?_writeAt_congr h

theorem get?_foldl_write_of_root_ne (h : ∀ item ∈ items, item.root? ≠ some name) :
    Entries.get? (items.foldl write entries) name = Entries.get? entries name := by
  induction items generalizing entries with
  | nil => rfl
  | cons item rest ih =>
    obtain ⟨hitem, hrest⟩ := List.forall_mem_cons.1 h
    rw [List.foldl_cons, ih hrest, get?_write_of_root_ne hitem]

theorem get?_foldl_write_congr (items : List Item)
    (h : Entries.get? entries name = Entries.get? others name) :
    Entries.get? (items.foldl write entries) name =
      Entries.get? (items.foldl write others) name := by
  induction items generalizing entries others with
  | nil => exact h
  | cons item rest ih => exact ih (get?_write_congr item h)

theorem root?_of_mem_flatten {tree : Entries Value} (h : WellFormed tree) {item : Item}
    (hitem : item ∈ flatten tree) : ∃ key ∈ Entries.keys tree, item.root? = some key := by
  obtain ⟨w, hw, rfl⟩ := List.mem_map.1 hitem
  rw [← head?_path_of_writing? (writing?_item (h.proper_of_mem hw))]
  obtain ⟨key, v, hmem, inner, -, rfl⟩ := mem_leavesAll.1 hw
  exact ⟨key, List.mem_map_of_mem hmem, rfl⟩

/-- Items between others leave at their root what they leave there on their own. -/
theorem value_parse_at_root (hbefore : ∀ item ∈ before, item.root? ≠ some name)
    (hafter : ∀ item ∈ after, item.root? ≠ some name) (items : List Item) :
    value (parse (before ++ items ++ after)) name = value (parse items) name := by
  have hempty : Entries.get? (before.foldl write []) name = Entries.get? [] name :=
    get?_foldl_write_of_root_ne hbefore
  rw [value, parse, List.foldl_append, get?_foldl_write_of_root_ne hafter, List.foldl_append,
    get?_foldl_write_congr items hempty]
  rfl

/-- Items between others leave nothing at any other root. -/
theorem value_parse_off_root (h : ∀ item ∈ items, item.root? ≠ some name)
    (before after : List Item) :
    value (parse (before ++ items ++ after)) name = value (parse (before ++ after)) name := by
  have hitems : Entries.get? (items.foldl write (before.foldl write [])) name =
      Entries.get? (before.foldl write []) name := get?_foldl_write_of_root_ne h
  rw [value, value, parse, parse, List.foldl_append, List.foldl_append, List.foldl_append,
    get?_foldl_write_congr after hitems]

/-! ### The last word on a root -/

def lastUnder? (items : List Item) (name : String) : Option Item :=
  items.reverse.find? fun item => item.root? == some name

theorem Writing.related_singleton_iff {w : Writing} (h : w.path ≠ []) :
    w.Related [name] ↔ w.path.head? = some name := by
  obtain ⟨key, rest, hpath⟩ := List.exists_cons_of_ne_nil h
  rw [Writing.Related, hpath, List.cons_prefix_cons, List.cons_prefix_cons, List.head?_cons,
    Option.some_inj]
  exact ⟨fun h => h.elim And.left fun h => h.1.symm, fun h => .inr ⟨h.symm, List.nil_prefix⟩⟩

theorem getLast?_related (items : List Item) (name : String) :
    (related items [name]).getLast? = (lastUnder? items name).bind Item.writing? := by
  have hroot : (fun item : Item => item.writing?.any fun w => decide (w.Related [name])) =
      fun item => item.root? == some name := by
    funext item
    cases hw : item.writing? with
    | none =>
      have hsplit : splitKey? item.key = none := Option.map_eq_none_iff.1 hw
      simp [Item.root?, hsplit]
    | some w =>
      rw [Option.any_some, Bool.eq_iff_iff, decide_eq_true_iff, beq_iff_eq,
        Writing.related_singleton_iff (path_ne_nil_of_writing? hw), head?_path_of_writing? hw]
  rw [related, List.getLast?_filter, ← List.filterMap_reverse, List.find?_filterMap, hroot]
  rfl

theorem splitKey?_eq_singleton_iff (hname : IsSegment name) {key : String} :
    splitKey? key = some [name] ↔ Text.strip key = name := by
  have hprint : printKey [name] = name := by simp [printKey]
  rw [splitKey?_eq_some_iff, Text.strip, ← String.toList_inj, String.toList_ofList]
  constructor
  · rintro ⟨root, segments, hpath, -, hkey⟩
    rwa [hprint] at hkey
  · intro hkey
    have hpath : IsPath name [] :=
      ⟨hname, fun _ hs => absurd hs List.not_mem_nil, List.not_mem_nil, Nat.zero_le _⟩
    exact ⟨name, [], rfl, hpath, by rwa [hprint]⟩

theorem root?_of_strip (hname : IsSegment name) {item : Item} (h : Text.strip item.key = name) :
    item.root? = some name := by
  rw [Item.root?, (splitKey?_eq_singleton_iff hname).2 h]
  rfl

/-- Where the last item with a root has it as its key, it is the last item with this key too. -/
theorem find?_key_eq_lastUnder? (hname : IsSegment name) (hstrip : Text.strip name = name)
    (h : ∀ item, lastUnder? items name = some item → item.key = name) :
    (items.reverse.find? fun item => item.key == name) = lastUnder? items name := by
  have hroot : ∀ item : Item, item.root? ≠ some name → (item.key == name) = false := by
    intro item hne
    rw [beq_eq_false_iff_ne]
    intro hkey
    exact hne (root?_of_strip hname (by rw [hkey, hstrip]))
  cases hlast : lastUnder? items name with
  | none =>
    rw [List.find?_eq_none]
    intro item hitem
    have hnot := List.find?_eq_none.1 hlast item hitem
    simpa using hroot item (by simpa using hnot)
  | some item =>
    obtain ⟨-, later, earlier, hitems, hlater⟩ := List.find?_eq_some_iff_append.1 hlast
    refine List.find?_eq_some_iff_append.2
      ⟨by simpa using h item hlast, later, earlier, hitems, fun other hother => ?_⟩
    have hnot := hlater other hother
    simpa using hroot other (by simpa using hnot)

theorem writing?_eq_plain_iff (hname : IsSegment name) {item : Item} {s : String} :
    item.writing? = some ⟨[name], false, s⟩ ↔ Text.strip item.key = name ∧ item.value = s := by
  rw [← splitKey?_eq_singleton_iff hname, Item.writing?, Option.map_eq_some_iff]
  constructor
  · rintro ⟨path, hsplit, hwriting⟩
    split at hwriting
    · cases (Writing.mk.inj hwriting).2.1
    · cases hwriting
      exact ⟨hsplit, rfl⟩
  · rintro ⟨hsplit, rfl⟩
    refine ⟨[name], hsplit, if_neg ?_⟩
    simpa using hname.1

/-- A text stands at a root exactly when the last item with the root has no segments behind it, and
then it is the value of this item. -/
theorem value_parse_eq_text_iff (hname : IsSegment name) {s : String} :
    value (parse items) name = .text s ↔
      ∃ item, lastUnder? items name = some item ∧ Text.strip item.key = name ∧ item.value = s := by
  have hfound : value (parse items) name = .text s ↔
      valueAt? [name] (.map (parse items)) = some (.text s) := by
    rw [value, valueAt?]
    cases Entries.get? (parse items) name <;> simp [valueAt?]
  have hleaves := leaves_parse items (List.cons_ne_nil name [])
  rw [hfound, Writing.text_iff_of_leaves hleaves, getLast?_related, Option.bind_eq_some_iff]
  simp only [writing?_eq_plain_iff hname]

end TableApi.Params
