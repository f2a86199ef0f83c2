import Mathlib.Data.List.Induction
import Mathlib.Data.List.Nodup
import TableApi.Proofs.Params.LastWriter

/-! Trees of parameters as items and back. A tree is well-formed when its keys can be written in
brackets and it is no deeper than keys reach. Every parsed tree is well-formed, and a well-formed
tree is parsed back from its items, one for every text in it, in the order of the tree. -/

namespace TableApi.Params

open TableApi.Text

/-! ### Well-formed trees -/

/-- A value that can stand at the end of a path of some length: a text or a list of texts where a
key reaches it, which takes one segment more for a list, or a mapping of such values. Lists and
mappings are not empty. -/
inductive Fits : (length : Nat) → Value → Prop where
  | text {length : Nat} {s : String} (hlength : length ≤ maxDepth + 1) : Fits length (.text s)
  | list {length : Nat} {texts : List String} (hlength : length ≤ maxDepth) (hne : texts ≠ []) :
      Fits length (.list (texts.map Value.text))
  | map {length : Nat} {entries : Entries Value} (hne : entries ≠ [])
      (hnodup : (Entries.keys entries).Nodup) (hkeys : ∀ key ∈ Entries.keys entries, IsSegment key)
      (hvalues : ∀ entry ∈ entries, Fits (length + 1) entry.2) : Fits length (.map entries)

/-- Entries with keys that differ from each other, whose values fit at paths of some length. -/
structure FitsAll (length : Nat) (entries : Entries Value) : Prop where
  nodup : (Entries.keys entries).Nodup
  segments : ∀ key ∈ Entries.keys entries, IsSegment key
  values : ∀ entry ∈ entries, Fits length entry.2

/-- A tree of entries that fit at its root. No root begins with white space, and none ends with it
where a text stands. -/
structure WellFormed (tree : Entries Value) : Prop extends FitsAll 1 tree where
  leading : ∀ key ∈ Entries.keys tree, BeginsSolid key
  trailing : ∀ key s, (key, .text s) ∈ tree → EndsSolid key

/-! ### Flat trees -/

namespace Writing

/-- The path that the key of a writing denotes: for a list item one more segment, which is empty. -/
def fullPath (w : Writing) : List String := if w.appends then w.path ++ [""] else w.path

def item (w : Writing) : Item := ⟨printKey w.fullPath, w.text⟩

def under (key : String) (w : Writing) : Writing := { w with path := key :: w.path }

end Writing

mutual

/-- The writings of the texts in a value, depth first, with their paths below it. -/
def leaves : Value → List Writing
  | .list items => items.map fun v => ⟨[], true, v.plainText⟩
  | .map entries => leavesAll entries
  | v => [⟨[], false, v.plainText⟩]

def leavesAll : List (String × Value) → List Writing
  | [] => []
  | (key, v) :: rest => (leaves v).map (Writing.under key) ++ leavesAll rest

end

/-- A tree as items: one for each text, depth first in the order of the keys. -/
def flatten (tree : Entries Value) : List Item := (leavesAll tree).map Writing.item

theorem mem_leavesAll {entries : Entries Value} {w : Writing} :
    w ∈ leavesAll entries ↔
      ∃ key v, (key, v) ∈ entries ∧ ∃ inner ∈ leaves v, inner.under key = w := by
  induction entries with
  | nil => simp [leavesAll]
  | cons entry rest ih =>
    obtain ⟨key, v⟩ := entry
    rw [leavesAll, List.mem_append, List.mem_map, ih]
    constructor
    · rintro (⟨inner, hinner, rfl⟩ | ⟨k, u, hmem, hrest⟩)
      · exact ⟨key, v, List.mem_cons_self, inner, hinner, rfl⟩
      · exact ⟨k, u, List.mem_cons_of_mem _ hmem, hrest⟩
    · rintro ⟨k, u, hmem, hrest⟩
      rcases List.mem_cons.1 hmem with heq | hin
      · obtain ⟨rfl, rfl⟩ := Prod.mk.inj heq
        exact Or.inl hrest
      · exact Or.inr ⟨k, u, hin, hrest⟩

/-! ### Writings that have items -/

/-- A writing whose path can be written in brackets. -/
structure Writing.Proper (w : Writing) : Prop where
  root : ∃ root rest, w.path = root :: rest ∧ BeginsSolid root ∧
    (w.appends = false → rest = [] → EndsSolid root)
  segments : ∀ key ∈ w.path, IsSegment key
  length : w.path.length ≤ if w.appends then maxDepth else maxDepth + 1

theorem endsSolid_printKey (root : String) {segments : List String} (h : segments ≠ []) :
    EndsSolid (printKey (root :: segments)) := by
  obtain ⟨front, s, rfl⟩ := (List.eq_nil_or_concat' segments).resolve_left h
  refine ⟨']', ?_, by decide⟩
  rw [toList_printKey, List.map_append, bracketed, List.flatMap_append, List.map_singleton,
    List.flatMap_singleton, ← List.cons_append, ← List.append_assoc, ← List.append_assoc,
    List.getLast?_concat]

theorem beginsSolid_printKey {root : String} (h : BeginsSolid root) (segments : List String) :
    BeginsSolid (printKey (root :: segments)) := by
  obtain ⟨first, hfirst, hsolid⟩ := h
  refine ⟨first, ?_, hsolid⟩
  rw [toList_printKey, List.head?_append, hfirst, Option.some_or]

/-- Segments make a path, if they are not too many. -/
theorem isPath_of_segments {root : String} {segments : List String} (hroot : IsSegment root)
    (h : ∀ s ∈ segments, IsSegment s) (hlength : segments.length ≤ maxDepth) :
    IsPath root segments where
  root := hroot
  unbracketed s hs := (h s hs).2
  inner hempty := (h _ ((List.dropLast_sublist _).subset hempty)).1 rfl
  length := hlength

theorem isPath_concat_empty {root : String} {segments : List String} (hroot : IsSegment root)
    (h : ∀ s ∈ segments, IsSegment s) (hlength : segments.length + 1 ≤ maxDepth) :
    IsPath root (segments ++ [""]) where
  root := hroot
  unbracketed s hs := by
    rcases List.mem_append.1 hs with hin | hlast
    · exact (h s hin).2
    · rw [List.mem_singleton.1 hlast]
      exact nofun
  inner := by
    rw [List.dropLast_concat]
    exact fun hempty => (h _ hempty).1 rfl
  length := by simpa using hlength

/-- The item of a proper writing is read as this writing. -/
theorem writing?_item {w : Writing} (h : w.Proper) : w.item.writing? = some w := by
  obtain ⟨path, appends, text⟩ := w
  obtain ⟨⟨root, rest, rfl, hbegins, hends⟩, hsegments, hlength⟩ := h
  obtain ⟨hroot, hrest⟩ := List.forall_mem_cons.1 hsegments
  cases appends with
  | true =>
    have hkey := stripChars_eq_self (beginsSolid_printKey hbegins (rest ++ [""]))
      (endsSolid_printKey root (by simp))
    have hsplit := splitKey?_of_isPath (isPath_concat_empty hroot hrest hlength) hkey
    simp only [Item.writing?, Writing.item, Writing.fullPath, if_true, List.cons_append, hsplit,
      Option.map_some]
    rw [← List.cons_append, List.getLast?_concat, List.dropLast_concat, if_pos rfl]
  | false =>
    have hsolid : EndsSolid (printKey (root :: rest)) := by
      by_cases hnil : rest = []
      · subst hnil
        simpa [printKey] using hends rfl rfl
      · exact endsSolid_printKey root hnil
    have hsplit := splitKey?_of_isPath (isPath_of_segments hroot hrest (by simpa using hlength))
      (stripChars_eq_self (beginsSolid_printKey hbegins rest) hsolid)
    have hlast : (root :: rest).getLast? ≠ some "" := fun hempty =>
      (hsegments _ (List.mem_of_getLast? hempty)).1 rfl
    simp only [Item.writing?, Writing.item, Writing.fullPath, Bool.false_eq_true, if_false, hsplit,
      Option.map_some, if_neg hlast]

section Stripped

variable {key root : String} {segments : List String}

theorem beginsSolid_of_stripped (hroot : root ≠ "")
    (hkey : stripChars key.toList = (printKey (root :: segments)).toList) : BeginsSolid root := by
  obtain ⟨first, rest, hchars⟩ := List.exists_cons_of_ne_nil (mt String.toList_eq_nil_iff.1 hroot)
  have hhead : (stripChars key.toList).head? = some first := by
    rw [hkey, toList_printKey, hchars, List.cons_append, List.head?_cons]
  exact ⟨first, by rw [hchars, List.head?_cons], drop_of_mem_head?_trimChars hhead⟩

theorem endsSolid_of_stripped (hroot : root ≠ "")
    (hkey : stripChars key.toList = (printKey [root]).toList) : EndsSolid root := by
  obtain ⟨front, last, hchars⟩ := (List.eq_nil_or_concat' root.toList).resolve_left
    (mt String.toList_eq_nil_iff.1 hroot)
  have hend : (stripChars key.toList).getLast? = some last := by
    rw [hkey, toList_printKey, hchars]
    simp [bracketed]
  exact ⟨last, by rw [hchars, List.getLast?_concat], drop_of_mem_getLast?_trimChars hend⟩

theorem IsPath.isSegment (h : IsPath root segments) (hlast : segments.getLast? ≠ some "") :
    ∀ s ∈ segments, IsSegment s := by
  intro s hs
  refine ⟨?_, h.unbracketed s hs⟩
  rintro rfl
  rcases List.eq_nil_or_concat' segments with rfl | ⟨front, last, rfl⟩
  · cases hs
  · rcases List.mem_append.1 hs with hin | hat
    · exact h.inner (by rwa [List.dropLast_concat])
    · rw [← List.mem_singleton.1 hat, List.getLast?_concat] at hlast
      exact hlast rfl

end Stripped

/-- Every item that writes has a proper writing. -/
theorem proper_of_writing? {item : Item} {w : Writing} (h : item.writing? = some w) : w.Proper := by
  obtain ⟨path, hsplit, rfl⟩ := Option.map_eq_some_iff.1 h
  obtain ⟨root, segments, rfl, hpath, hkey⟩ := of_splitKey? hsplit
  have hbegins : BeginsSolid root := beginsSolid_of_stripped hpath.root.1 hkey
  rcases List.eq_nil_or_concat' segments with rfl | ⟨front, last, rfl⟩
  · have hroot : [root].getLast? ≠ some "" := fun hempty => hpath.root.1 (Option.some.inj hempty)
    rw [if_neg hroot]
    exact ⟨⟨root, [], rfl, hbegins, fun _ _ => endsSolid_of_stripped hpath.root.1 hkey⟩,
      List.forall_mem_singleton.2 hpath.root, Nat.le_add_left 1 maxDepth⟩
  · rw [← List.cons_append, List.getLast?_concat, List.dropLast_concat]
    split
    · next hlast =>
      cases hlast
      have hinner := hpath.inner
      rw [List.dropLast_concat] at hinner
      refine ⟨⟨root, front, rfl, hbegins, nofun⟩, List.forall_mem_cons.2 ⟨hpath.root, ?_⟩,
        by simpa using hpath.length⟩
      exact fun s hs => ⟨fun hempty => hinner (hempty ▸ hs),
        hpath.unbracketed s (List.mem_append_left _ hs)⟩
    · next hlast =>
      refine ⟨⟨root, front ++ [last], rfl, hbegins, ?_⟩, List.forall_mem_cons.2 ⟨hpath.root, ?_⟩,
        by simpa using hpath.length⟩
      · exact fun _ hnil => absurd hnil (by simp)
      · exact hpath.isSegment (by rwa [List.getLast?_concat])

/-! ### Parsed trees are well-formed -/

section Writing

variable {length : Nat} {entries : Entries Value} {key : String} {v : Value}

theorem FitsAll.put (h : FitsAll length entries) (hkey : IsSegment key) (hv : Fits length v) :
    FitsAll length (entries.put key v) where
  nodup := by
    rw [Entries.keys_put]
    split
    · exact h.nodup
    · next hnew =>
      rw [← List.concat_eq_append]
      exact List.Nodup.concat hnew h.nodup
  segments := by
    rw [Entries.keys_put]
    split
    · exact h.segments
    · intro k hk
      rcases List.mem_append.1 hk with hin | hlast
      · exact h.segments k hin
      · rwa [List.mem_singleton.1 hlast]
  values entry hentry := by
    rcases Entries.of_mem_put hentry with rfl | hold
    · exact hv
    · exact h.values entry hold

theorem FitsAll.fits_of_get? (h : FitsAll length entries) (hget : Entries.get? entries key = some v) :
    Fits length v := h.values _ (Entries.mem_of_get?_eq_some hget)

theorem fitsAll_nil (length : Nat) : FitsAll length [] := ⟨List.nodup_nil, nofun, nofun⟩

/-- The entries below a key of entries that fit. -/
theorem FitsAll.below (h : FitsAll length entries) (key : String) :
    FitsAll (length + 1) (below entries key) := by
  unfold Params.below
  split
  · next inner hget =>
    cases h.fits_of_get? hget with
    | map _ hnodup hkeys hvalues => exact ⟨hnodup, hkeys, hvalues⟩
  · exact fitsAll_nil _

theorem writeAt_ne_nil (f : Option Value → Value) {path : List String} (h : path ≠ [])
    (entries : Entries Value) : Params.writeAt f path entries ≠ [] := by
  obtain ⟨key, rest, rfl⟩ := List.exists_cons_of_ne_nil h
  have hkey : key ∈ Entries.keys (Params.writeAt f (key :: rest) entries) := by
    rw [keys_writeAt]
    split
    · assumption
    · exact List.mem_append_right _ (List.mem_singleton.2 rfl)
  intro hempty
  rw [hempty] at hkey
  cases hkey

/-- Writing at a path keeps entries that fit, when what is written fits at its end. -/
theorem FitsAll.writeAt {f : Option Value → Value} {last : Nat}
    (hf : ∀ old, (∀ u, old = some u → Fits last u) → Fits last (f old)) {path : List String}
    (hsegments : ∀ k ∈ path, IsSegment k) (hlast : length + path.length = last + 1)
    (h : FitsAll length entries) : FitsAll length (Params.writeAt f path entries) := by
  induction path generalizing length entries with
  | nil => exact h
  | cons key rest ih =>
    obtain ⟨hkey, hrest⟩ := List.forall_mem_cons.1 hsegments
    by_cases hnil : rest = []
    · subst hnil
      obtain rfl : length = last := Nat.succ_injective hlast
      exact h.put hkey (hf _ fun u hu => h.fits_of_get? hu)
    · rw [writeAt_cons_of_ne_nil hnil]
      have hinner : FitsAll (length + 1) (Params.writeAt f rest (Params.below entries key)) :=
        ih hrest (by rw [List.length_cons] at hlast; omega) (h.below key)
      exact h.put hkey (.map (writeAt_ne_nil f hnil _) hinner.nodup hinner.segments hinner.values)

end Writing

/-- A text or a list with one more text fits where the path of the writing ends. -/
theorem Writing.Proper.fits_value {w : Writing} (h : w.Proper) {old : Option Value}
    (hold : ∀ v, old = some v → Fits w.path.length v) : Fits w.path.length (w.value old) := by
  have hlength := h.length
  unfold value
  split
  · next happends =>
    rw [if_pos happends] at hlength
    have hone : Fits w.path.length (.list [.text w.text]) :=
      @Fits.list _ [w.text] hlength (List.cons_ne_nil _ _)
    unfold append
    split
    · next items =>
      cases hold _ rfl with
      | @list _ texts _ hne =>
        have hconcat : texts.map Value.text ++ [.text w.text] =
            (texts ++ [w.text]).map Value.text := by simp
        rw [hconcat]
        exact .list hlength (by simp)
    · exact hone
  · next hplain =>
    rw [if_neg hplain] at hlength
    exact .text hlength

/-- One writing keeps a tree well-formed. -/
theorem WellFormed.apply {tree : Entries Value} (h : WellFormed tree) {w : Writing}
    (hw : w.Proper) : WellFormed (w.apply tree) := by
  have hfits : FitsAll 1 (w.apply tree) :=
    h.toFitsAll.writeAt (fun _ hold => hw.fits_value hold) hw.segments (Nat.add_comm _ _)
  obtain ⟨path, appends, text⟩ := w
  obtain ⟨⟨root, rest, rfl, hbegins, hends⟩, -, -⟩ := hw
  refine ⟨hfits, ?_, ?_⟩
  · intro key hkey
    rw [Writing.apply, keys_writeAt] at hkey
    split at hkey
    · exact h.leading key hkey
    · rcases List.mem_append.1 hkey with hold | hlast
      · exact h.leading key hold
      · rwa [List.mem_singleton.1 hlast]
  · intro key s hmem
    by_cases hnil : rest = []
    · subst hnil
      rcases Entries.of_mem_put hmem with hnew | hold
      · obtain ⟨rfl, htext⟩ := Prod.mk.inj hnew
        -- A list item leaves no text.
        cases appends with
        | true =>
          rw [Writing.value, if_pos rfl] at htext
          unfold append at htext
          split at htext <;> cases htext
        | false => exact hends rfl rfl
      · exact h.trailing key s hold
    · rw [Writing.apply, writeAt_cons_of_ne_nil hnil] at hmem
      rcases Entries.of_mem_put hmem with hnew | hold
      · cases (Prod.mk.inj hnew).2
      · exact h.trailing key s hold

/-- By induction on the items, each of which writes to the tree of those before it. -/
theorem wellFormed_parse (items : List Item) : WellFormed (parse items) := by
  induction items using List.reverseRecOn with
  | nil => exact ⟨fitsAll_nil 1, nofun, nofun⟩
  | append_singleton items item ih =>
    rw [parse_concat]
    cases hw : item.writing? with
    | none => exact ih
    | some w => exact ih.apply (proper_of_writing? hw)

/-! ### Well-formed trees are parsed back -/

/-- The path of a writing below a value that fits is as long as a key can have it. -/
theorem segments_of_mem_leaves {length : Nat} {v : Value} (h : Fits length v) :
    ∀ w ∈ leaves v, (∀ key ∈ w.path, IsSegment key) ∧
      length + w.path.length ≤ if w.appends then maxDepth else maxDepth + 1 := by
  induction h with
  | text hlength =>
    intro w hw
    rw [leaves, List.mem_singleton] at hw
    · rw [hw]
      exact ⟨nofun, hlength⟩
    all_goals exact nofun
  | list hlength _ =>
    intro w hw
    rw [leaves, List.mem_map] at hw
    obtain ⟨v, -, rfl⟩ := hw
    exact ⟨nofun, hlength⟩
  | map _ _ hkeys _ ih =>
    intro w hw
    rw [leaves, mem_leavesAll] at hw
    obtain ⟨key, v, hmem, inner, hinner, rfl⟩ := hw
    obtain ⟨hsegments, hlength⟩ := ih _ hmem inner hinner
    refine ⟨List.forall_mem_cons.2 ⟨hkeys key (List.mem_map_of_mem hmem), hsegments⟩, ?_⟩
    rw [Writing.under, List.length_cons, ← Nat.add_assoc, Nat.add_right_comm]
    exact hlength

theorem leaves_ne_nil {length : Nat} {v : Value} (h : Fits length v) : leaves v ≠ [] := by
  induction h with
  | text _ => simp [leaves]
  | list _ hne => simpa [leaves] using hne
  | map hne _ _ _ ih =>
    obtain ⟨⟨key, v⟩, rest, rfl⟩ := List.exists_cons_of_ne_nil hne
    have hfirst := ih _ List.mem_cons_self
    simp [leaves, leavesAll, hfirst]

/-- The writings of a well-formed tree all have items. -/
theorem WellFormed.proper_of_mem {tree : Entries Value} (h : WellFormed tree) {w : Writing}
    (hw : w ∈ leavesAll tree) : w.Proper := by
  obtain ⟨key, v, hmem, inner, hinner, rfl⟩ := mem_leavesAll.1 hw
  have hkey : key ∈ Entries.keys tree := List.mem_map_of_mem hmem
  obtain ⟨hsegments, hlength⟩ := segments_of_mem_leaves (h.values _ hmem) inner hinner
  refine ⟨⟨key, inner.path, rfl, h.leading key hkey, ?_⟩,
    List.forall_mem_cons.2 ⟨h.segments key hkey, hsegments⟩, ?_⟩
  · intro hplain hnil
    have htext : ∃ s, v = .text s := by
      cases h.values _ hmem with
      | text _ => exact ⟨_, rfl⟩
      | list _ _ =>
        rw [leaves, List.mem_map] at hinner
        obtain ⟨u, -, rfl⟩ := hinner
        cases hplain
      | map _ _ _ _ =>
        rw [leaves, mem_leavesAll] at hinner
        obtain ⟨k, u, -, below, -, rfl⟩ := hinner
        cases hnil
    obtain ⟨s, rfl⟩ := htext
    exact h.trailing key s hmem
  · rw [Writing.under, List.length_cons, Nat.add_comm]
    exact hlength

open Writing (under)

/-- Writings below a key write to the mapping there, which they make. -/
theorem foldl_apply_under {ws : List Writing} (hne : ws ≠ []) (hpaths : ∀ w ∈ ws, w.path ≠ [])
    (key : String) (entries : Entries Value) :
    (ws.map (under key)).foldl Writing.apply entries =
      entries.put key (.map (ws.foldl Writing.apply (below entries key))) := by
  induction ws generalizing entries with
  | nil => contradiction
  | cons w rest ih =>
    obtain ⟨hw, hrest⟩ := List.forall_mem_cons.1 hpaths
    have hfirst : (under key w).apply entries =
        entries.put key (.map (w.apply (below entries key))) :=
      writeAt_cons_of_ne_nil hw _ _ _
    rw [List.map_cons, List.foldl_cons, hfirst, List.foldl_cons]
    by_cases hnil : rest = []
    · rw [hnil]
      rfl
    · rw [ih hnil hrest, Entries.put_put]
      simp only [below, Entries.get?_put_self]

theorem foldl_apply_list (key : String) (texts : List String) (before : List Value)
    (entries : Entries Value) :
    (texts.map fun s => Writing.mk [key] true s).foldl Writing.apply
        (entries.put key (.list before)) =
      entries.put key (.list (before ++ texts.map Value.text)) := by
  induction texts generalizing before with
  | nil => simp
  | cons s rest ih =>
    have hfirst : (Writing.mk [key] true s).apply (entries.put key (.list before)) =
        entries.put key (.list (before ++ [.text s])) := by
      simp [Writing.apply, writeAt, Writing.value, append]
    rw [List.map_cons, List.foldl_cons, hfirst, ih]
    simp

/-- The writings of a value below a new key put the value there. -/
def Rebuilds (v : Value) : Prop :=
  ∀ (entries : Entries Value) (key : String), key ∉ entries.keys →
    ((leaves v).map (under key)).foldl Writing.apply entries = entries ++ [(key, v)]

/-- Values that are rebuilt one by one rebuild a mapping with keys of their own. -/
theorem foldl_leavesAll {entries : Entries Value} (hnodup : entries.keys.Nodup)
    (hvalues : ∀ entry ∈ entries, Rebuilds entry.2) {before : Entries Value}
    (hdisjoint : ∀ key ∈ entries.keys, key ∉ before.keys) :
    (leavesAll entries).foldl Writing.apply before = before ++ entries := by
  induction entries generalizing before with
  | nil => simp [leavesAll]
  | cons entry rest ih =>
    obtain ⟨key, v⟩ := entry
    obtain ⟨hkey, hrest⟩ := List.nodup_cons.1 hnodup
    obtain ⟨hv, hvs⟩ := List.forall_mem_cons.1 hvalues
    obtain ⟨hnew, hnews⟩ := List.forall_mem_cons.1 hdisjoint
    rw [leavesAll, List.foldl_append, hv before key hnew, ih hrest hvs, List.append_assoc]
    · rfl
    · intro k hk hmem
      rw [Entries.keys, List.map_append] at hmem
      rcases List.mem_append.1 hmem with hold | hlast
      · exact hnews k hk hold
      · rw [List.mem_singleton.1 hlast] at hk
        exact hkey hk

/-- By induction on the value, a mapping being rebuilt from an empty one. -/
theorem rebuilds_of_fits {length : Nat} {v : Value} (h : Fits length v) : Rebuilds v := by
  induction h with
  | @text length s _ =>
    intro entries key hkey
    exact Entries.put_of_notMem hkey _
  | @list length texts _ hne =>
    intro entries key hkey
    obtain ⟨s, rest, rfl⟩ := List.exists_cons_of_ne_nil hne
    have hfirst : (Writing.mk [key] true s).apply entries = entries.put key (.list [.text s]) := by
      simp [Writing.apply, writeAt, Writing.value, append, Entries.get?_eq_none_iff.2 hkey]
    have hitems : (leaves (.list ((s :: rest).map Value.text))).map (under key) =
        Writing.mk [key] true s :: rest.map fun s => Writing.mk [key] true s := by
      simp [leaves, under, Value.plainText, Function.comp_def]
    rw [hitems, List.foldl_cons, hfirst, foldl_apply_list, ← Entries.put_of_notMem hkey]
    rfl
  | @map length inner hne hnodup hkeys hvalues ih =>
    intro entries key hkey
    have hnone : below entries key = [] := by
      rw [below, Entries.get?_eq_none_iff.2 hkey]
    have hrebuilt := @foldl_leavesAll inner hnodup ih [] fun _ _ => List.not_mem_nil
    have hleaves := leaves_ne_nil (.map hne hnodup hkeys hvalues : Fits length (.map inner))
    rw [leaves] at hleaves ⊢
    rw [foldl_apply_under hleaves ?_ key entries, hnone, hrebuilt, List.nil_append,
      Entries.put_of_notMem hkey]
    intro w hw
    obtain ⟨k, u, -, below, -, rfl⟩ := mem_leavesAll.1 hw
    exact List.cons_ne_nil _ _

theorem parse_map_item {ws : List Writing} (h : ∀ w ∈ ws, w.Proper) :
    parse (ws.map Writing.item) = ws.foldl Writing.apply [] := by
  rw [parse, List.foldl_map]
  apply List.foldl_ext
  intro entries w hw
  rw [write_eq, writing?_item (h w hw), Option.elim_some]

theorem parse_flatten {tree : Entries Value} (h : WellFormed tree) : parse (flatten tree) = tree := by
  rw [flatten, parse_map_item fun w hw => h.proper_of_mem hw]
  exact foldl_leavesAll h.nodup (fun entry hentry => rebuilds_of_fits (h.values entry hentry)) nofun

/-- Every tree that is parsed is well-formed, and every well-formed tree is what its items are
parsed to, with its keys in their order. -/
theorem parse_round_trip :
    (∀ items, WellFormed (parse items)) ∧
      ∀ tree, WellFormed tree → parse (flatten tree) = tree :=
  ⟨wellFormed_parse, fun _ => parse_flatten⟩

/-- A tree as deep as keys reach, with white space around its keys and blank texts. -/
def deepTree : Entries Value := [
  ("filter ", .map [
    (" a", .map [("in", .list [.text "1", .text ""]), ("b ", .map [(" ", .text "x]y")])]),
    ("c", .list [.text " "])]),
  ("q=", .text "")]

example : flatten deepTree = [⟨"filter [ a][in][]", "1"⟩, ⟨"filter [ a][in][]", ""⟩,
    ⟨"filter [ a][b ][ ]", "x]y"⟩, ⟨"filter [c][]", " "⟩, ⟨"q=", ""⟩] := by
  decide

theorem fits_deepTree : FitsAll 1 deepTree := by
  have hdeepest : Fits 3 (.map [(" ", .text "x]y")]) :=
    .map (by decide) (by decide) (by decide) (List.forall_mem_singleton.2 (.text (by decide)))
  have hlist : Fits 3 (.list [.text "1", .text ""]) :=
    @Fits.list _ ["1", ""] (by decide) (by decide)
  have hmiddle : Fits 2 (.map [("in", .list [.text "1", .text ""]),
      ("b ", .map [(" ", .text "x]y")])]) :=
    .map (by decide) (by decide) (by decide)
      (List.forall_mem_cons.2 ⟨hlist, List.forall_mem_singleton.2 hdeepest⟩)
  have hblank : Fits 2 (.list [.text " "]) := @Fits.list _ [" "] (by decide) (by decide)
  have hfilter : Fits 1 (.map [(" a", .map [("in", .list [.text "1", .text ""]),
      ("b ", .map [(" ", .text "x]y")])]), ("c", .list [.text " "])]) :=
    .map (by decide) (by decide) (by decide)
      (List.forall_mem_cons.2 ⟨hmiddle, List.forall_mem_singleton.2 hblank⟩)
  exact ⟨by decide, by decide, List.forall_mem_cons.2 ⟨hfilter,
    List.forall_mem_singleton.2 (.text (by decide))⟩⟩

theorem parse_flatten_deepTree : WellFormed deepTree ∧ parse (flatten deepTree) = deepTree := by
  have hbegins : ∀ key ∈ Entries.keys deepTree, BeginsSolid key :=
    List.forall_mem_cons.2 ⟨⟨'f', rfl, by decide⟩,
      List.forall_mem_singleton.2 ⟨'q', rfl, by decide⟩⟩
  have hends : ∀ key s, (key, .text s) ∈ deepTree → EndsSolid key := by
    intro key s hmem
    rcases List.mem_cons.1 hmem with hfirst | hrest
    · cases (Prod.mk.inj hfirst).2
    · obtain ⟨rfl, -⟩ := Prod.mk.inj (List.mem_singleton.1 hrest)
      exact ⟨'=', rfl, by decide⟩
  have hwell : WellFormed deepTree := ⟨fits_deepTree, hbegins, hends⟩
  exact ⟨hwell, parse_round_trip.2 deepTree hwell⟩

end TableApi.Params
