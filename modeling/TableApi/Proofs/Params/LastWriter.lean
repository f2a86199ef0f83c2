import Mathlib.Data.List.DropRight
import TableApi.Params.Tree
import TableApi.Proofs.Params.Key

/-! The tree of parameters in closed form. Two paths are related when one is a beginning of the
other, and what stands at a path is decided by the last item that is related to it: a plain item at
the path leaves its text there, list items leave their texts as a list, an item below the path
leaves a mapping, and an item above the path leaves nothing. -/

namespace TableApi.Params

/-- What an item writes: a text that replaces whatever is at a path, or one more text of a list
there. -/
structure Writing where
  path : List String
  appends : Bool
  text : String
  deriving DecidableEq, Repr

/-- The writing of an item; an item with a malformed key has none. -/
def Item.writing? (item : Item) : Option Writing :=
  (splitKey? item.key).map fun path =>
    if path.getLast? = some "" then ⟨path.dropLast, true, item.value⟩ else ⟨path, false, item.value⟩

/-- The value at a path below a value. -/
def valueAt? : (path : List String) → Value → Option Value
  | [], v => some v
  | key :: rest, .map entries => (Entries.get? entries key).bind (valueAt? rest)
  | _ :: _, _ => none

namespace Writing

/-- The writing is at the path, above it or below it. -/
def Related (path : List String) (w : Writing) : Prop := w.path <+: path ∨ path <+: w.path

def Below (path : List String) (w : Writing) : Prop := path <+: w.path ∧ w.path ≠ path

/-- The writing adds a text to a list at the path. -/
def AppendsAt (path : List String) (w : Writing) : Prop := w.path = path ∧ w.appends = true

instance (path : List String) : DecidablePred (Related path) := fun _ => inferInstanceAs (Decidable (_ ∨ _))

instance (path : List String) : DecidablePred (Below path) := fun _ => inferInstanceAs (Decidable (_ ∧ _))

instance (path : List String) : DecidablePred (AppendsAt path) := fun _ => inferInstanceAs (Decidable (_ ∧ _))

def value (w : Writing) (old : Option Value) : Value :=
  if w.appends then append w.text old else .text w.text

def apply (entries : Entries Value) (w : Writing) : Entries Value := writeAt w.value w.path entries

/-- The first key of the writing below a path. -/
def keyBelow? (path : List String) (w : Writing) : Option String := (w.path.drop path.length).head?

end Writing

def related (items : List Item) (path : List String) : List Writing :=
  (items.filterMap Item.writing?).filter (Writing.Related path)

/-! ### Items -/

theorem exists_root_of_splitKey? {key : String} {path : List String} (h : splitKey? key = some path) :
    ∃ root rest, path = root :: rest ∧ root ≠ "" := by
  obtain ⟨root, segments, rfl, hpath, -⟩ := of_splitKey? h
  exact ⟨root, segments, rfl, hpath.root.1⟩

theorem path_ne_nil_of_writing? {item : Item} {w : Writing} (h : item.writing? = some w) :
    w.path ≠ [] := by
  obtain ⟨path, hsplit, rfl⟩ := Option.map_eq_some_iff.1 h
  obtain ⟨root, rest, rfl, hroot⟩ := exists_root_of_splitKey? hsplit
  split
  · next hlast =>
    cases rest with
    | nil => simp [hroot] at hlast
    | cons key more => simp
  · simp

theorem write_eq (entries : Entries Value) (item : Item) :
    write entries item = item.writing?.elim entries fun w => w.apply entries := by
  unfold write Item.writing?
  cases splitKey? item.key with
  | none => rfl
  | some path =>
    simp only [Option.map_some, Option.elim_some]
    split <;> rfl

/-- One more item writes to the tree of the items before it. -/
theorem parse_concat (items : List Item) (item : Item) :
    parse (items ++ [item]) = item.writing?.elim (parse items) fun w => w.apply (parse items) := by
  rw [parse, List.foldl_append, List.foldl_cons, List.foldl_nil, write_eq]
  rfl

theorem related_concat (items : List Item) (item : Item) (path : List String) :
    related (items ++ [item]) path = related items path ++
      item.writing?.elim [] fun w => if w.Related path then [w] else [] := by
  unfold related
  rw [List.filterMap_append, List.filter_append]
  cases hw : item.writing? with
  | none => simp [hw]
  | some w => by_cases h : w.Related path <;> simp [hw, h]

/-! ### Writing at a path -/

/-- The entries of the mapping at a path, none when there is no mapping. -/
def entriesAt (path : List String) (entries : Entries Value) : Entries Value :=
  match valueAt? path (.map entries) with
  | some (.map inner) => inner
  | _ => []

theorem valueAt?_append (path more : List String) (v : Value) :
    valueAt? (path ++ more) v = (valueAt? path v).bind (valueAt? more) := by
  induction path generalizing v with
  | nil => rfl
  | cons key rest ih =>
    cases v with
    | map entries =>
      simp only [List.cons_append, valueAt?, Option.bind_assoc]
      congr 1
      funext inner
      exact ih inner
    | _ => rfl

theorem valueAt?_cons_of_ne_nil {rest : List String} (h : rest ≠ []) (key : String)
    (entries : Entries Value) :
    valueAt? (key :: rest) (.map entries) = valueAt? rest (.map (below entries key)) := by
  obtain ⟨next, more, rfl⟩ := List.exists_cons_of_ne_nil h
  unfold below
  rw [valueAt?]
  cases hget : Entries.get? entries key with
  | none => rfl
  | some v => cases v <;> rfl

theorem entriesAt_cons (key : String) (rest : List String) (entries : Entries Value) :
    entriesAt (key :: rest) entries = entriesAt rest (below entries key) := by
  cases rest with
  | nil =>
    simp only [entriesAt, below, valueAt?]
    cases Entries.get? entries key with
    | none => rfl
    | some v => cases v <;> rfl
  | cons next more =>
    unfold entriesAt
    rw [valueAt?_cons_of_ne_nil (List.cons_ne_nil next more)]

theorem writeAt_cons_of_ne_nil {rest : List String} (h : rest ≠ []) (f : Option Value → Value)
    (key : String) (entries : Entries Value) :
    writeAt f (key :: rest) entries =
      entries.put key (.map (writeAt f rest (below entries key))) := by
  obtain ⟨next, more, rfl⟩ := List.exists_cons_of_ne_nil h
  rfl

variable (f : Option Value → Value) (entries : Entries Value)

theorem valueAt?_writeAt_self {path : List String} (h : path ≠ []) :
    valueAt? path (.map (writeAt f path entries)) = some (f (valueAt? path (.map entries))) := by
  induction path generalizing entries with
  | nil => contradiction
  | cons key rest ih =>
    by_cases hrest : rest = []
    · subst hrest
      simp [writeAt, valueAt?]
    · rw [writeAt_cons_of_ne_nil hrest, valueAt?, Entries.get?_put_self, Option.bind_some,
        ih _ hrest, valueAt?_cons_of_ne_nil hrest]

theorem valueAt?_writeAt_above (path : List String) {rest : List String} (h : rest ≠ []) :
    valueAt? path (.map (writeAt f (path ++ rest) entries)) =
      some (.map (writeAt f rest (entriesAt path entries))) := by
  induction path generalizing entries with
  | nil => rfl
  | cons key more ih =>
    have hmore : more ++ rest ≠ [] := List.append_ne_nil_of_right_ne_nil more h
    rw [List.cons_append, writeAt_cons_of_ne_nil hmore, valueAt?, Entries.get?_put_self,
      Option.bind_some, ih, entriesAt_cons]

/-- Nothing changes at a path that is not related to the written one. -/
theorem valueAt?_writeAt_unrelated {path other : List String} (habove : ¬ path <+: other)
    (hbelow : ¬ other <+: path) :
    valueAt? other (.map (writeAt f path entries)) = valueAt? other (.map entries) := by
  induction path generalizing entries other with
  | nil => exact absurd List.nil_prefix habove
  | cons key rest ih =>
    cases other with
    | nil => exact absurd List.nil_prefix hbelow
    | cons name more =>
      by_cases hname : key = name
      · subst hname
        have hrest : ¬ rest <+: more := fun h => habove (List.cons_prefix_cons.2 ⟨rfl, h⟩)
        have hmore : ¬ more <+: rest := fun h => hbelow (List.cons_prefix_cons.2 ⟨rfl, h⟩)
        have hrestNe : rest ≠ [] := fun h => hrest (h ▸ List.nil_prefix)
        have hmoreNe : more ≠ [] := fun h => hmore (h ▸ List.nil_prefix)
        rw [writeAt_cons_of_ne_nil hrestNe, valueAt?, Entries.get?_put_self, Option.bind_some,
          ih _ hrest hmore, valueAt?_cons_of_ne_nil hmoreNe]
      · have hget : ∀ v : Value, valueAt? (name :: more) (.map (Entries.put key v entries)) =
            valueAt? (name :: more) (.map entries) := by
          intro v
          rw [valueAt?, valueAt?, Entries.get?_put_of_ne hname]
        cases rest <;> exact hget _

theorem keys_writeAt (key : String) (rest : List String) :
    Entries.keys (writeAt f (key :: rest) entries) =
      if key ∈ entries.keys then entries.keys else entries.keys ++ [key] := by
  cases rest <;> exact Entries.keys_put ..

/-! ### What is left at a path -/

namespace Writing

/-- The texts of the list items at a path that no other related writing follows. -/
def listRun (path : List String) (ws : List Writing) : List Value :=
  (ws.rtakeWhile (AppendsAt path)).map fun w => .text w.text

/-- The keys below a path in the order of their first writing, since the last related writing that
is not below the path. -/
def keyRun (path : List String) (ws : List Writing) : List String :=
  ((ws.rtakeWhile (Below path)).filterMap (keyBelow? path)).eraseDups

theorem listRun_concat_of_appendsAt {path : List String} {w : Writing} (h : w.AppendsAt path)
    (ws : List Writing) : listRun path (ws ++ [w]) = listRun path ws ++ [.text w.text] := by
  rw [listRun, List.rtakeWhile_concat_pos _ _ _ (by simpa using h), List.map_append]
  rfl

theorem listRun_concat_of_not {path : List String} {w : Writing} (h : ¬ w.AppendsAt path)
    (ws : List Writing) : listRun path (ws ++ [w]) = [] := by
  rw [listRun, List.rtakeWhile_concat_neg _ _ _ (by simpa using h), List.map_nil]

theorem eraseDups_concat (keys : List String) (key : String) :
    (keys ++ [key]).eraseDups = if key ∈ keys then keys.eraseDups else keys.eraseDups ++ [key] := by
  rw [List.eraseDups_append, List.removeAll, List.filter_singleton, List.elem_eq_contains]
  by_cases h : key ∈ keys <;> simp [h, List.eraseDups_cons]

/-- A key that is written once more keeps its place, and a new one comes last. -/
theorem keyRun_concat_of_below {path rest : List String} {key : String} {w : Writing}
    (h : w.path = path ++ key :: rest) (ws : List Writing) :
    keyRun path (ws ++ [w]) =
      if key ∈ keyRun path ws then keyRun path ws else keyRun path ws ++ [key] := by
  have hbelow : w.Below path := ⟨h ▸ List.prefix_append .., by simp [h]⟩
  have hkey : w.keyBelow? path = some key := by simp [keyBelow?, h]
  rw [keyRun, List.rtakeWhile_concat_pos _ _ _ (by simpa using hbelow), List.filterMap_append]
  simp only [List.filterMap_cons, hkey, List.filterMap_nil, eraseDups_concat, keyRun,
    List.mem_eraseDups]

theorem keyRun_concat_of_not {path : List String} {w : Writing} (h : ¬ w.Below path)
    (ws : List Writing) : keyRun path (ws ++ [w]) = [] := by
  rw [keyRun, List.rtakeWhile_concat_neg _ _ _ (by simpa using h)]
  rfl

/-- What the writings that are related to a path leave there. -/
def Leaves (path : List String) (ws : List Writing) (found : Option Value) : Prop :=
  match ws.getLast? with
  | none => found = none
  | some w =>
    if w.path = path then
      found = some (if w.appends then .list (listRun path ws) else .text w.text)
    else if path <+: w.path then ∃ inner, found = some (.map inner)
    else found = none

section Leaves

variable {path : List String} {ws : List Writing} {found : Option Value}

theorem text_iff_of_leaves (h : Leaves path ws found) {s : String} :
    found = some (.text s) ↔ ws.getLast? = some ⟨path, false, s⟩ := by
  unfold Leaves at h
  split at h
  · next hlast => simp [h, hlast]
  · next w hlast =>
    obtain ⟨at_, appends, text⟩ := w
    split at h
    · cases appends <;> simp_all
    · split at h
      · obtain ⟨inner, rfl⟩ := h
        simp_all
      · simp_all

theorem list_iff_of_leaves (h : Leaves path ws found) {vs : List Value} :
    found = some (.list vs) ↔
      (∃ w, ws.getLast? = some w ∧ w.AppendsAt path) ∧ vs = listRun path ws := by
  unfold Leaves at h
  split at h
  · next hlast => simp [h, hlast]
  · next w hlast =>
    split at h
    · next hpath =>
      by_cases happends : w.appends
      · have hat : w.AppendsAt path := ⟨hpath, happends⟩
        simp only [h, if_pos happends, hlast, Option.some.injEq, Value.list.injEq]
        exact ⟨fun hvs => ⟨⟨w, rfl, hat⟩, hvs.symm⟩, fun hvs => hvs.2.symm⟩
      · simp [h, hlast, happends, AppendsAt]
    · next hpath =>
      have hnot : ¬ w.AppendsAt path := fun ha => hpath ha.1
      split at h
      · obtain ⟨inner, rfl⟩ := h
        simp_all
      · simp_all

theorem map_iff_of_leaves (h : Leaves path ws found) :
    (∃ inner, found = some (.map inner)) ↔ ∃ w, ws.getLast? = some w ∧ w.Below path := by
  unfold Leaves at h
  split at h
  · next hlast => simp [h, hlast]
  · next w hlast =>
    split at h
    · next hpath => cases happends : w.appends <;> simp_all [Below]
    · next hpath => split at h <;> simp_all [Below]

theorem none_iff_of_leaves (h : Leaves path ws found) :
    found = none ↔ ∀ w, ws.getLast? = some w → ¬ path <+: w.path := by
  unfold Leaves at h
  split at h
  · next hlast => simp [h, hlast]
  · next w hlast =>
    split at h
    · next hpath => simp [h, hlast, hpath]
    · split at h
      · obtain ⟨inner, rfl⟩ := h
        simp_all
      · simp_all

end Leaves

/-- One more text at a path continues the list that stands there, or begins a new one. -/
theorem append_of_leaves {path : List String} {ws : List Writing} {found : Option Value}
    (h : Leaves path ws found) (text : String) :
    append text found = .list (listRun path ws ++ [.text text]) := by
  rcases List.eq_nil_or_concat' ws with rfl | ⟨front, w, rfl⟩
  · rw [show found = none from h]
    rfl
  · simp only [Leaves, List.getLast?_concat] at h
    split at h
    · next hpath =>
      by_cases happends : w.appends
      · rw [h, if_pos happends]
        rfl
      · rw [h, if_neg happends, listRun_concat_of_not fun ha => happends ha.2]
        rfl
    · next hpath =>
      rw [listRun_concat_of_not fun ha => hpath ha.1]
      split at h
      · obtain ⟨inner, rfl⟩ := h
        rfl
      · rw [h]
        rfl

/-- What a writing leaves at a related path, behind the writings before it. -/
theorem leaves_apply {path : List String} {ws : List Writing} {entries : Entries Value}
    (h : Leaves path ws (valueAt? path (.map entries))) {w : Writing} (hw : w.path ≠ [])
    (hrelated : w.Related path) :
    Leaves path (ws ++ [w]) (valueAt? path (.map (w.apply entries))) := by
  simp only [Leaves, List.getLast?_concat]
  split
  · next hpath =>
    rw [apply, hpath, valueAt?_writeAt_self _ _ (hpath ▸ hw), value]
    split
    · next happends => rw [append_of_leaves h, listRun_concat_of_appendsAt ⟨hpath, happends⟩]
    · rfl
  · next hpath =>
    split
    · next hbelow =>
      obtain ⟨rest, hrest⟩ := hbelow
      have hne : rest ≠ [] := by
        rintro rfl
        exact hpath (by simpa using hrest.symm)
      rw [apply, ← hrest, valueAt?_writeAt_above _ _ _ hne]
      exact ⟨_, rfl⟩
    · next hbelow =>
      obtain ⟨rest, rfl⟩ := hrelated.resolve_right hbelow
      have hne : rest ≠ [] := by
        rintro rfl
        exact hpath (by simp)
      obtain ⟨key, more, rfl⟩ := List.exists_cons_of_ne_nil hne
      rw [apply, valueAt?_append, valueAt?_writeAt_self _ _ hw, Option.bind_some, value]
      split
      · next happends =>
        cases valueAt? w.path (.map entries) with
        | none => rfl
        | some old => cases old <;> rfl
      · rfl

end Writing

open Writing

theorem valueAt?_apply_of_not_related {path : List String} {w : Writing} (h : ¬ w.Related path)
    (entries : Entries Value) :
    valueAt? path (.map (w.apply entries)) = valueAt? path (.map entries) :=
  valueAt?_writeAt_unrelated _ _ (fun habove => h (.inl habove)) fun hbelow => h (.inr hbelow)

/-- By induction on the items, each of which writes to the tree of those before it. -/
theorem leaves_parse (items : List Item) {path : List String} (hpath : path ≠ []) :
    Leaves path (related items path) (valueAt? path (.map (parse items))) := by
  induction items using List.reverseRecOn with
  | nil =>
    obtain ⟨key, rest, rfl⟩ := List.exists_cons_of_ne_nil hpath
    rfl
  | append_singleton items item ih =>
    rw [parse_concat, related_concat]
    cases hw : item.writing? with
    | none => simpa using ih
    | some w =>
      simp only [Option.elim_some]
      by_cases hrelated : w.Related path
      · rw [if_pos hrelated]
        exact leaves_apply ih (path_ne_nil_of_writing? hw) hrelated
      · rw [if_neg hrelated, List.append_nil, valueAt?_apply_of_not_related hrelated]
        exact ih

theorem entriesAt_of_leaves {path : List String} {ws : List Writing} {w : Writing}
    {entries : Entries Value} (h : Leaves path (ws ++ [w]) (valueAt? path (.map entries)))
    (hw : ¬ w.Below path) : entriesAt path entries = [] := by
  simp only [Leaves, List.getLast?_concat] at h
  unfold entriesAt
  split at h
  · rw [h]
    cases w.appends <;> rfl
  · next hpath =>
    rw [if_neg fun hbelow => hw ⟨hbelow, hpath⟩] at h
    rw [h]

/-- The keys of every mapping, by induction on the items. -/
theorem keys_entriesAt (items : List Item) (path : List String) :
    (entriesAt path (parse items)).keys = keyRun path (related items path) := by
  induction items using List.reverseRecOn with
  | nil => cases path <;> rfl
  | append_singleton items item ih =>
    rw [parse_concat, related_concat]
    cases hw : item.writing? with
    | none => simpa using ih
    | some w =>
      simp only [Option.elim_some]
      by_cases hrelated : w.Related path
      · rw [if_pos hrelated]
        by_cases hbelow : w.Below path
        · obtain ⟨⟨rest, hrest⟩, hne⟩ := hbelow
          obtain ⟨key, more, rfl⟩ : ∃ key more, rest = key :: more := by
            apply List.exists_cons_of_ne_nil
            rintro rfl
            exact hne (by simpa using hrest.symm)
          have hinner : entriesAt path (w.apply (parse items)) =
              writeAt w.value (key :: more) (entriesAt path (parse items)) := by
            rw [entriesAt, apply, ← hrest, valueAt?_writeAt_above _ _ _ (List.cons_ne_nil key more)]
          rw [hinner, keys_writeAt, ih, keyRun_concat_of_below hrest.symm]
        · have hpath : path ≠ [] := by
            rintro rfl
            exact hbelow ⟨List.nil_prefix, path_ne_nil_of_writing? hw⟩
          have hleaves := leaves_apply (leaves_parse items hpath) (path_ne_nil_of_writing? hw) hrelated
          rw [entriesAt_of_leaves hleaves hbelow, keyRun_concat_of_not hbelow]
          rfl
      · rw [if_neg hrelated, List.append_nil, ← ih, entriesAt,
          valueAt?_apply_of_not_related hrelated]
        rfl

/-- The last writer wins. The last item that is related to a path decides what stands there: its
text, the list of the texts with which list items at the path end, a mapping when it is below the
path, and nothing when it is above it. The keys of every mapping stand in the order of their first
items since the path last became a mapping. -/
theorem last_writer_wins (items : List Item) {path : List String} (hpath : path ≠ []) :
    let ws := related items path
    let found := valueAt? path (.map (parse items))
    (∀ s, found = some (.text s) ↔ ws.getLast? = some ⟨path, false, s⟩) ∧
    (∀ vs, found = some (.list vs) ↔
      (∃ w, ws.getLast? = some w ∧ w.AppendsAt path) ∧ vs = listRun path ws) ∧
    ((∃ inner, found = some (.map inner)) ↔ ∃ w, ws.getLast? = some w ∧ w.Below path) ∧
    (found = none ↔ ∀ w, ws.getLast? = some w → ¬ path <+: w.path) ∧
    ∀ node inner, valueAt? node (.map (parse items)) = some (.map inner) →
      Entries.keys inner = keyRun node (related items node) := by
  have hleaves := leaves_parse items hpath
  refine ⟨fun s => ?_, fun vs => ?_, ?_, ?_, ?_⟩
  · exact text_iff_of_leaves hleaves
  · exact list_iff_of_leaves hleaves
  · exact map_iff_of_leaves hleaves
  · exact none_iff_of_leaves hleaves
  · intro node inner hinner
    rw [← keys_entriesAt, entriesAt, hinner]

/-- Items that overwrite each other: a mapping gives way to a text and the text to a new mapping, in
which a list is written in two parts. One key is malformed. -/
def conflicting : List Item := [⟨"a[b]", "1"⟩, ⟨"a[c]", "2"⟩, ⟨"a", "3"⟩, ⟨"a[d][]", "4"⟩, ⟨"a[d", "5"⟩,
  ⟨"a[b]", "6"⟩, ⟨"a[d][]", "7"⟩]

/-- The list goes on behind the item of another key, and only the keys of the new mapping are
left. -/
theorem last_writer_of_conflicting : ["a", "d"] ≠ [] ∧
    valueAt? ["a", "d"] (.map (parse conflicting)) = some (.list [.text "4", .text "7"]) ∧
    ∃ inner, valueAt? ["a"] (.map (parse conflicting)) = some (.map inner) ∧
      Entries.keys inner = ["d", "b"] := by
  have hlist : related conflicting ["a", "d"] =
      [⟨["a"], false, "3"⟩, ⟨["a", "d"], true, "4"⟩, ⟨["a", "d"], true, "7"⟩] := by
    decide +kernel
  have hmap : related conflicting ["a"] =
      [⟨["a", "b"], false, "1"⟩, ⟨["a", "c"], false, "2"⟩, ⟨["a"], false, "3"⟩,
        ⟨["a", "d"], true, "4"⟩, ⟨["a", "b"], false, "6"⟩, ⟨["a", "d"], true, "7"⟩] := by
    decide +kernel
  obtain ⟨-, hlists, -, -, hkeys⟩ := @last_writer_wins conflicting ["a", "d"] (by decide)
  obtain ⟨-, -, hmaps, -, -⟩ := @last_writer_wins conflicting ["a"] (by decide)
  refine ⟨by decide, ?_, ?_⟩
  · rw [hlist] at hlists
    exact (hlists _).2 ⟨⟨_, rfl, rfl, rfl⟩, rfl⟩
  · rw [hmap] at hmaps
    obtain ⟨inner, hinner⟩ := hmaps.2 ⟨_, rfl, by decide⟩
    refine ⟨inner, hinner, ?_⟩
    rw [hkeys ["a"] inner hinner, hmap]
    decide

end TableApi.Params
