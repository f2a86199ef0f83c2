import TableApi.Proofs.Options.Merged
import TableApi.Proofs.Resource.Registered

/-! Resolving in memory. All resolutions share the mappings of the default options, and merging
writes into mappings in place; but it writes into copies. Resolving in memory therefore comes to
the same as resolving trees of values, and leaves the shared mappings as they are. -/

namespace TableApi.Options

/-- What a mapping holds at a key: a value that never changes, or the place of another mapping. -/
inductive Slot where
  | value (v : Value)
  | place (n : Nat)
  deriving Repr

abbrev Memory : Type := List (Entries Value)

/-- A tree of options in memory, with the memory that holds its sections. -/
structure Draft where
  slots : Entries Slot
  memory : Memory

namespace Memory

def read (m : Memory) : Slot → Value
  | .value v => v
  | .place n => .map (m[n]?.getD [])

def tree (m : Memory) (slots : Entries Slot) : Entries Value :=
  slots.map fun entry => (entry.1, m.read entry.2)

/-- Copy a value: the copy of a mapping has a place of its own. -/
def copy (m : Memory) : Value → Slot × Memory
  | .map entries => (.place m.length, m ++ [entries])
  | v => (.value v, m)

end Memory

namespace Draft

/-- Merge one override: a mapping is written in place into the mapping at its name, anything else
is copied to there. -/
def mergeSection (d : Draft) (name : String) (override : Value) : Draft :=
  match d.slots.get? name, override with
  | some (.place n), .map additions =>
    ⟨d.slots, d.memory.modify n fun current => Entries.putAll current additions⟩
  | _, _ =>
    let (slot, memory) := d.memory.copy override
    ⟨d.slots.put name slot, memory⟩

def mergeAll (d : Draft) (overrides : Entries Value) : Draft :=
  overrides.foldl (fun d (name, override) => d.mergeSection name override) d

end Draft

namespace Memory

/-- The default options that all resolutions share. -/
def shared : Entries Slot := [
  ("pagination", .place 0), ("sorting", .place 1), ("searching", .place 2),
  ("filtering", .place 3), ("meta", .place 4)]

def initial : Memory := [
  paginationDefaults, sortingDefaults, searchingDefaults, filteringDefaults, totalsDefaults]

def start (m : Memory) : Draft := Draft.mergeAll ⟨[], m⟩ (m.tree shared)

/-- Merge overrides into a copy of the shared defaults. -/
def merge? (m : Memory) : Value → Option Draft
  | .null => some m.start
  | .map sections => some (m.start.mergeAll sections)
  | _ => none

/-- Resolve overrides in memory. -/
def resolve (m : Memory) (overrides : Value) : Except Error Options × Memory :=
  match m.merge? overrides with
  | none => (.error .notMapping, m)
  | some d =>
    let checked := checkAll (d.memory.tree d.slots)
    (if checked.faults.isEmpty then .ok checked.value else .error (.faulty checked.faults),
      d.memory)

/-- Memory after overrides have been resolved, one after the other. -/
def after (m : Memory) (earlier : List Value) : Memory :=
  earlier.foldl (fun m overrides => (m.resolve overrides).2) m

/-! ### Reading what was written -/

theorem get?_tree (m : Memory) (slots : Entries Slot) (name : String) :
    Entries.get? (m.tree slots) name = (slots.get? name).map m.read :=
  Entries.get?_map_values (fun _ => m.read) slots name

theorem tree_put (m : Memory) (name : String) (slot : Slot) (slots : Entries Slot) :
    m.tree (slots.put name slot) = Entries.put name (m.read slot) (m.tree slots) := by
  induction slots with
  | nil => rfl
  | cons entry rest ih =>
    obtain ⟨k, s⟩ := entry
    by_cases hk : k = name
    · simp [tree, Entries.put, hk]
    · simpa [tree, Entries.put, hk] using ih

end Memory

def Slot.place? : Slot → Option Nat
  | .place n => some n
  | .value _ => none

def places (slots : Entries Slot) : List Nat := slots.filterMap fun entry => entry.2.place?

theorem mem_places_of_get? {slots : Entries Slot} {name : String} {n : Nat}
    (h : slots.get? name = some (.place n)) : n ∈ places slots :=
  List.mem_filterMap.2 ⟨_, Entries.mem_of_get?_eq_some h, rfl⟩

theorem places_cons (name : String) (slot : Slot) (slots : Entries Slot) :
    places ((name, slot) :: slots) = slot.place?.toList ++ places slots := by
  cases slot <;> rfl

theorem of_mem_places_put {slots : Entries Slot} {name : String} {slot : Slot} {n : Nat}
    (h : n ∈ places (slots.put name slot)) : slot.place? = some n ∨ n ∈ places slots := by
  obtain ⟨entry, hentry, hn⟩ := List.mem_filterMap.1 h
  rcases Entries.of_mem_put hentry with rfl | hmem
  · exact .inl hn
  · exact .inr (List.mem_filterMap.2 ⟨entry, hmem, hn⟩)

/-- Places stay apart when a slot with another place, or none, is put. -/
theorem nodup_places_put {slots : Entries Slot} (h : (places slots).Nodup) {slot : Slot}
    (hnew : ∀ n, slot.place? = some n → n ∉ places slots) (name : String) :
    (places (slots.put name slot)).Nodup := by
  induction slots with
  | nil => cases slot <;> simp [Entries.put, places, Slot.place?]
  | cons entry rest ih =>
    obtain ⟨k, s⟩ := entry
    rw [places_cons, List.nodup_append] at h
    obtain ⟨hs, hrest, hapart⟩ := h
    have hnew' : ∀ n, slot.place? = some n → n ∉ places rest := fun n hn hmem =>
      hnew n hn (by rw [places_cons]; exact List.mem_append_right _ hmem)
    by_cases hk : k = name
    · rw [Entries.put, if_pos hk, places_cons, List.nodup_append]
      refine ⟨by cases slot <;> simp [Slot.place?], hrest, fun a ha b hb hab => ?_⟩
      exact hnew' a (by simpa using ha) (hab ▸ hb)
    · rw [Entries.put, if_neg hk, places_cons, List.nodup_append]
      refine ⟨hs, ih hrest hnew', fun a ha b hb hab => ?_⟩
      subst hab
      rcases of_mem_places_put hb with hslot | hmem
      · exact hnew a hslot (by rw [places_cons]; exact List.mem_append_left _ ha)
      · exact hapart a ha a hmem rfl

namespace Memory

theorem read_append {m : Memory} {slot : Slot} (h : ∀ n, slot.place? = some n → n < m.length)
    (new : Memory) : read (m ++ new) slot = m.read slot := by
  cases slot with
  | value v => rfl
  | place n => rw [read, read, List.getElem?_append_left (h n rfl)]

theorem tree_append {m : Memory} {slots : Entries Slot} (h : ∀ n ∈ places slots, n < m.length)
    (new : Memory) : tree (m ++ new) slots = m.tree slots := by
  refine List.map_congr_left fun entry hentry => ?_
  rw [read_append fun n hn => h n (List.mem_filterMap.2 ⟨entry, hentry, hn⟩)]

theorem read_modify_of_ne {m : Memory} {slot : Slot} {n : Nat} (h : slot.place? ≠ some n)
    (f : Entries Value → Entries Value) : read (m.modify n f) slot = m.read slot := by
  cases slot with
  | value v => rfl
  | place k =>
    have hne : n ≠ k := fun heq => h (by rw [heq]; rfl)
    simp [read, hne]

/-- Writing into the mapping of a section changes that section and no other. -/
theorem tree_modify {m : Memory} {slots : Entries Slot} (hapart : (places slots).Nodup)
    {name : String} {n : Nat} (hname : slots.get? name = some (.place n)) (hn : n < m.length)
    (f : Entries Value → Entries Value) :
    tree (m.modify n f) slots = Entries.put name (.map (f (m[n]?.getD []))) (m.tree slots) := by
  induction slots with
  | nil => cases hname
  | cons entry rest ih =>
    obtain ⟨k, s⟩ := entry
    rw [places_cons, List.nodup_append] at hapart
    obtain ⟨-, hrest, hdisjoint⟩ := hapart
    rw [Entries.get?_cons] at hname
    by_cases hk : k = name
    · rw [if_pos hk] at hname
      cases hname
      have hothers : tree (m.modify n f) rest = m.tree rest := by
        refine List.map_congr_left fun entry hentry => ?_
        rw [read_modify_of_ne fun heq => hdisjoint n (by simp [Slot.place?]) n
          (List.mem_filterMap.2 ⟨entry, hentry, heq⟩) rfl]
      have hread : read (m.modify n f) (.place n) = .map (f (m[n]?.getD [])) := by
        simp [read, List.getElem?_eq_getElem hn]
      change (k, read (m.modify n f) (.place n)) :: tree (m.modify n f) rest = _
      rw [hread, hothers]
      simp [tree, Entries.put, hk]
    · rw [if_neg hk] at hname
      have hs : s.place? ≠ some n := fun heq =>
        hdisjoint n (by simp [heq]) n (mem_places_of_get? hname) rfl
      change (k, read (m.modify n f) s) :: tree (m.modify n f) rest = _
      rw [read_modify_of_ne hs, ih hrest hname]
      simp [tree, Entries.put, hk]

theorem prefix_modify {m m' : Memory} (h : m <+: m') {n : Nat} (hn : m.length ≤ n)
    (f : Entries Value → Entries Value) : m <+: m'.modify n f := by
  rw [List.prefix_iff_getElem?] at h ⊢
  intro i hi
  have hne : n ≠ i := by omega
  simp [h i hi, hne]

/-! ### Merging in memory -/

theorem copy_cases (m : Memory) (v : Value) :
    (m.copy v = (.value v, m) ∧ v.isMap = false) ∨
      ∃ entries, v = .map entries ∧ m.copy v = (.place m.length, m ++ [entries]) := by
  cases v with
  | map entries => exact .inr ⟨entries, rfl, rfl⟩
  | _ => exact .inl ⟨rfl, rfl⟩

end Memory

namespace Draft

/-- A draft reads as a tree; its sections have places of their own, behind what was in memory, which
is kept. -/
structure Represents (d : Draft) (m : Memory) (tree : Entries Value) : Prop where
  reads : d.memory.tree d.slots = tree
  keeps : m <+: d.memory
  fresh : ∀ n ∈ places d.slots, m.length ≤ n ∧ n < d.memory.length
  apart : (places d.slots).Nodup
  placed : ∀ name entries, d.slots.get? name ≠ some (.value (.map entries))

variable {d : Draft} {m : Memory} {tree : Entries Value}

/-- Putting a copy into a draft puts the value into its tree. -/
theorem Represents.put_copy (h : d.Represents m tree) (name : String) (v : Value) :
    Represents ⟨d.slots.put name (d.memory.copy v).1, (d.memory.copy v).2⟩ m
      (tree.put name v) := by
  have hlt : ∀ n ∈ places d.slots, n < d.memory.length := fun n hn => (h.fresh n hn).2
  rcases d.memory.copy_cases v with ⟨hcopy, hmap⟩ | ⟨entries, rfl, hcopy⟩
  · rw [hcopy]
    refine ⟨?_, h.keeps, fun n hn => ?_, nodup_places_put h.apart ?_ name, fun other e => ?_⟩
    · rw [Memory.tree_put, h.reads]
      rfl
    · exact h.fresh n ((of_mem_places_put hn).resolve_left nofun)
    · rintro n hn
      cases hn
    · rw [Entries.get?_put]
      split
      · rintro heq
        cases heq
        cases hmap
      · exact h.placed other e
  · rw [hcopy]
    have hkeeps : d.memory <+: d.memory ++ [entries] := List.prefix_append _ _
    refine ⟨?_, h.keeps.trans hkeeps, fun n hn => ?_, nodup_places_put h.apart ?_ name,
      fun other e => ?_⟩
    · rw [Memory.tree_put, Memory.tree_append hlt, h.reads]
      simp [Memory.read]
    · rw [List.length_append, List.length_singleton]
      rcases of_mem_places_put hn with hslot | hmem
      · cases hslot
        exact ⟨h.keeps.length_le, Nat.lt_succ_self _⟩
      · exact ⟨(h.fresh n hmem).1, Nat.lt_succ_of_lt (hlt n hmem)⟩
    · rintro n hn hmem
      cases hn
      exact Nat.lt_irrefl _ (hlt _ hmem)
    · rw [Entries.get?_put]
      split
      · nofun
      · exact h.placed other e

/-- One override is merged in memory as it is into the tree. -/
theorem Represents.mergeSection (h : d.Represents m tree) (name : String) (override : Value) :
    (d.mergeSection name override).Represents m (Options.mergeSection tree name override) := by
  have hget : tree.get? name = (d.slots.get? name).map d.memory.read := by
    rw [← h.reads, Memory.get?_tree]
  unfold Draft.mergeSection
  split
  · next n additions hslot =>
    obtain ⟨hfresh, hlt⟩ := h.fresh n (mem_places_of_get? hslot)
    have hmerged : Options.mergeSection tree name (.map additions) =
        tree.put name (.map (Entries.putAll (d.memory[n]?.getD []) additions)) := by
      simp [Options.mergeSection, hget, hslot, Memory.read]
    refine ⟨?_, Memory.prefix_modify h.keeps hfresh _, fun k hk => ?_, h.apart, h.placed⟩
    · rw [hmerged, Memory.tree_modify h.apart hslot hlt, h.reads]
    · rw [List.length_modify]
      exact h.fresh k hk
  · next override _ _ hno =>
    have hmerged : Options.mergeSection tree name override = tree.put name override := by
      unfold Options.mergeSection
      split
      · next current additions hcurrent =>
        rw [hget] at hcurrent
        obtain ⟨slot, hslot, hread⟩ := Option.map_eq_some_iff.1 hcurrent
        cases slot with
        | value v =>
          cases hread
          exact absurd hslot (h.placed name current)
        | place n => exact absurd rfl (hno n additions hslot)
      · rfl
    rw [hmerged]
    exact h.put_copy name override

theorem Represents.mergeAll (h : d.Represents m tree) (overrides : Entries Value) :
    (d.mergeAll overrides).Represents m
      (overrides.foldl (fun merged (name, override) => Options.mergeSection merged name override)
        tree) := by
  induction overrides generalizing d tree with
  | nil => exact h
  | cons entry rest ih => exact ih (h.mergeSection entry.1 entry.2)

end Draft

namespace Memory

variable {m : Memory}

theorem tree_shared (h : initial <+: m) : m.tree shared = defaults := by
  obtain ⟨new, rfl⟩ := h
  rfl

/-- An override that is merged into the shared defaults themselves, and not into a copy, stays. -/
example : given? (.map ((Draft.mergeAll ⟨shared, initial⟩
    [("meta", .map [("rows_key", .text "items")])]).memory.tree shared)) "meta" "rows_key" =
      some (.text "items") := by
  rfl

theorem represents_start (h : initial <+: m) : m.start.Represents m defaults := by
  have hempty : Draft.Represents ⟨[], m⟩ m [] :=
    ⟨rfl, List.prefix_rfl, nofun, List.nodup_nil, nofun⟩
  have hcopied := hempty.mergeAll (m.tree shared)
  rw [tree_shared h] at hcopied
  have hdefaults : defaults.foldl (fun merged (name, override) =>
      Options.mergeSection merged name override) [] = defaults := by
    simp [defaults, Options.mergeSection, Entries.put, Entries.get?_cons]
  rw [hdefaults] at hcopied
  rwa [start, tree_shared h]

/-- Overrides are merged in memory as they are into the tree of the defaults. -/
theorem represents_merge? (h : initial <+: m) (overrides : Value) :
    Option.Rel (fun d tree => d.Represents m tree) (m.merge? overrides)
      (Options.merge? overrides) := by
  cases overrides with
  | null => exact .some (represents_start h)
  | map sections => exact .some ((represents_start h).mergeAll sections)
  | _ => exact .none

/-- While memory keeps the shared defaults, overrides resolve in it as they do on trees. -/
theorem resolve_fst (h : initial <+: m) (overrides : Value) :
    (m.resolve overrides).1 = Options.resolve overrides := by
  have hmerged := represents_merge? h overrides
  unfold resolve Options.resolve
  generalize m.merge? overrides = d? at hmerged ⊢
  generalize Options.merge? overrides = tree? at hmerged ⊢
  cases hmerged with
  | none => rfl
  | some hd => simp only [hd.reads]

theorem prefix_resolve (h : initial <+: m) (overrides : Value) : m <+: (m.resolve overrides).2 := by
  have hmerged := represents_merge? h overrides
  unfold resolve
  generalize m.merge? overrides = d? at hmerged ⊢
  generalize Options.merge? overrides = tree? at hmerged
  cases hmerged with
  | none => exact List.prefix_rfl
  | some hd => exact hd.keeps

/-- However much is resolved, memory keeps the shared defaults. -/
theorem prefix_after (h : initial <+: m) (earlier : List Value) : initial <+: m.after earlier := by
  induction earlier generalizing m with
  | nil => exact h
  | cons overrides rest ih => exact ih (h.trans (prefix_resolve h overrides))

end Memory

/-! ### Resolution -/

/-- What it means for overrides to resolve to options. -/
structure Resolution (overrides : Value) (o : Options) : Prop where
  /-- Each option is the one that is given, or else the default. -/
  merged : MergedFrom overrides o
  /-- Given back in full, and its sets of fields in any order, the options resolve to themselves. -/
  again : ∀ p, o.Same p → resolve (.map p.sections) = .ok p
  /-- Whatever was resolved in memory before, the overrides resolve to the options there. -/
  anytime : ∀ earlier, ((Memory.initial.after earlier).resolve overrides).1 = .ok o
  /-- The shared defaults are the same ever after. -/
  shared : ∀ earlier, (Memory.initial.after earlier).tree Memory.shared = defaults
  /-- Whatever was registered before, a resource with these overrides has these options. -/
  registered : ∀ (registry registry' : Registry) (g : Registration) (r : Resource),
    g.options = overrides → Registry.register registry g = .ok (registry', r) → r.options = o

/-- Overrides that resolve are merged one level deep into the defaults, with the names of fields each
once; the options that come out resolve to themselves; and no resolution has an effect on later
ones. -/
theorem resolution_of_resolve {overrides : Value} {o : Options} (honce : NamesOnce overrides)
    (h : resolve overrides = .ok o) : Resolution overrides o where
  merged := mergedFrom_of_resolve honce h
  again p hp := resolve_sections ((isSound_of_resolve h).of_same hp)
  anytime earlier := by
    rw [Memory.resolve_fst (Memory.prefix_after List.prefix_rfl earlier), h]
  shared earlier := Memory.tree_shared (Memory.prefix_after List.prefix_rfl earlier)
  registered registry registry' g r hg hregister := by
    obtain ⟨name, hdefine⟩ := Registry.exists_define_of_register hregister
    have hoptions := (Registry.defines_of_define hdefine).options
    rw [hg, h] at hoptions
    exact (Except.ok.inj hoptions).symm

/-- Overrides of two sections, with a field that is listed twice. -/
def searchOverrides : Value := .map [
  ("pagination", .map [("enabled", .bool true), ("max_per", .int 50)]),
  ("searching", .map [("searchable_fields", .list [.text "title", .text "content", .text "title"])])]

/-- The size and the fields that are given, each field once, and the default of another size. -/
theorem searchOverrides_resolve : ∃ o, resolve searchOverrides = .ok o ∧
    (o.pagination.maxSize.1, o.pagination.defaultSize.1, o.searching.fields) =
      (50, 10, ["title", "content"]) ∧ Resolution searchOverrides o := by
  have honce : NamesOnce searchOverrides := by
    refine ⟨by decide, fun name entries hmem => ?_⟩
    simp only [List.mem_cons, Prod.mk.injEq, Value.map.injEq, List.not_mem_nil, or_false] at hmem
    rcases hmem with ⟨-, rfl⟩ | ⟨-, rfl⟩ <;> decide
  have hrun : (resolve searchOverrides).toOption.map (fun o =>
      (o.pagination.maxSize.1, o.pagination.defaultSize.1, o.searching.fields)) =
        some (50, 10, ["title", "content"]) := by
    decide +kernel
  obtain ⟨o, ho, hshown⟩ := exists_of_toOption_map hrun
  exact ⟨o, ho, hshown, resolution_of_resolve honce ho⟩

end TableApi.Options
