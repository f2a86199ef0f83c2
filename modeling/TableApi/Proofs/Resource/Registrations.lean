import Mathlib.Data.List.Induction
import Mathlib.Data.List.Nodup
import TableApi.Proofs.Listing.Terms
import TableApi.Proofs.Resource.Registered

/-! Registrations one after the other. Every resource of the registry is what its registration asks
for, with a name of its own that can stand in a path and with lists that name only fields of its
model. One registration keeps this whether it is taken in or refused, so it holds after any number
of them. -/

namespace TableApi

theorem HookPoint.ofWord?_eq_some_iff {word : String} {point : HookPoint} :
    ofWord? word = some point ↔ word = point.word := by
  constructor
  · intro h
    have hword := List.find?_some h
    exact (beq_iff_eq.1 hword).symm
  · rintro rfl
    cases point <;> rfl

namespace Registry

/-! ### What each check lets through -/

theorem readName_eq_ok_iff {v : Value} {name : String} :
    readName v = .ok name ↔ v = .text name ∧ name ≠ "" ∧ '/' ∉ name.toList := by
  cases v with
  | text s =>
    rw [readName, Value.text.injEq]
    split
    · next hbad =>
      have hor : s = "" ∨ '/' ∈ s.toList := by simpa using hbad
      constructor
      · intro h
        cases h
      · rintro ⟨rfl, hne, hslash⟩
        exact absurd hor (by simp [hne, hslash])
    · next hgood =>
      have hand : s ≠ "" ∧ '/' ∉ s.toList := by simpa using hgood
      rw [Except.ok.injEq]
      exact ⟨fun h => h ▸ ⟨rfl, hand⟩, fun h => h.1⟩
  | _ =>
    simp only [readName]
    constructor
    · intro h
      split at h
      · cases h
      · split at h <;> cases h
    · rintro ⟨h, -⟩
      cases h

/-- A list of fields that was read names only fields of the model. -/
theorem subset_fields_of_readFields {list : String} {m : Model} {v : Value}
    {fields : List String} (h : readFields list m v = .ok (some fields)) :
    ∀ field ∈ fields, field ∈ m.fields := by
  unfold readFields at h
  split at h
  · cases h
  · cases h
  · split at h
    · cases h
    · next items _ =>
      simp only at h
      split at h
      · cases h
      · cases h
      · split at h
        · next hunknown =>
          cases h
          rw [sortedNames_isEmpty_iff, List.filter_eq_nil_iff] at hunknown
          intro field hfield
          simpa using hunknown field hfield
        · cases h

/-- Permitted fields are fields of the model, and none has the name of a key column. -/
theorem of_readPermitted {name : String} {m : Model} {v : Value} {permitted : List String}
    (h : readPermitted name m v = .ok permitted) :
    ∀ field ∈ permitted, field ∈ m.fields ∧ field ∉ m.primaryKey.map Column.name := by
  obtain ⟨fields?, hfields, h⟩ := bind_eq_ok_iff.1 h
  simp only at h
  split at h
  · next hkeys =>
    cases h
    rw [sortedNames_isEmpty_iff, List.filter_eq_nil_iff] at hkeys
    intro field hfield
    refine ⟨?_, by simpa using hkeys field hfield⟩
    rw [List.mem_eraseDups] at hfield
    cases fields? with
    | none => cases hfield
    | some fields => exact subset_fields_of_readFields hfields field hfield
  · cases h

/-- A hook table with no point twice, each of whose hooks stands in the entries at its point. -/
structure HookTable (entries : List (Value × Option Hook)) (table : List (HookPoint × Hook)) :
    Prop where
  points : (table.map Prod.fst).Nodup
  hooks : ∀ p ∈ table, (.text p.1.word, some p.2) ∈ entries
  entries : ∀ e ∈ entries, ∃ p ∈ table, e.1 = .text p.1.word ∧ e.2.isSome = true

theorem map_fst_putHook (point : HookPoint) (hook : Hook) (table : List (HookPoint × Hook)) :
    (putHook point hook table).map Prod.fst =
      if point ∈ table.map Prod.fst then table.map Prod.fst else table.map Prod.fst ++ [point] := by
  induction table with
  | nil => rfl
  | cons first rest ih =>
    obtain ⟨p, h⟩ := first
    unfold putHook
    by_cases hp : p = point
    · simp [hp]
    · rw [if_neg hp, List.map_cons, ih]
      by_cases hmem : point ∈ rest.map Prod.fst
      · rw [if_pos hmem, List.map_cons, if_pos (List.mem_cons_of_mem _ hmem)]
      · rw [if_neg hmem, List.map_cons, if_neg (by simp [Ne.symm hp, hmem]), List.cons_append]

theorem of_mem_putHook {point : HookPoint} {hook : Hook} {table : List (HookPoint × Hook)}
    {p : HookPoint × Hook} (h : p ∈ putHook point hook table) : p = (point, hook) ∨ p ∈ table := by
  induction table with
  | nil => exact Or.inl (List.mem_singleton.1 h)
  | cons first rest ih =>
    unfold putHook at h
    split at h
    · next heq =>
      rcases List.mem_cons.1 h with rfl | hrest
      · exact Or.inl (by rw [heq])
      · exact Or.inr (List.mem_cons_of_mem _ hrest)
    · rcases List.mem_cons.1 h with rfl | hrest
      · exact Or.inr List.mem_cons_self
      · exact (ih hrest).imp_right (List.mem_cons_of_mem _)

/-- One more entry keeps the table. -/
theorem HookTable.put {entries : List (Value × Option Hook)} {table : List (HookPoint × Hook)}
    (h : HookTable entries table) (point : HookPoint) (hook : Hook) :
    HookTable (entries ++ [(.text point.word, some hook)]) (putHook point hook table) where
  points := by
    rw [map_fst_putHook]
    split
    · exact h.points
    · next hnew =>
      rw [← List.concat_eq_append]
      exact List.Nodup.concat hnew h.points
  hooks := by
    intro p hp
    rcases of_mem_putHook hp with rfl | hold
    · exact List.mem_append_right _ (List.mem_singleton.2 rfl)
    · exact List.mem_append_left _ (h.hooks p hold)
  entries := by
    have hpoint : ∀ q : HookPoint, q ∈ table.map Prod.fst ∨ q = point →
        ∃ p ∈ putHook point hook table, p.1 = q := by
      intro q hq
      have hmem : q ∈ (putHook point hook table).map Prod.fst := by
        rw [map_fst_putHook]
        split
        · next hin => exact hq.elim id fun heq => heq ▸ hin
        · exact List.mem_append.2 (hq.imp_right List.mem_singleton.2)
      exact List.mem_map.1 hmem
    intro e he
    rcases List.mem_append.1 he with hold | hnew
    · obtain ⟨p, hp, hkey, hhook⟩ := h.entries e hold
      obtain ⟨p', hp', heq⟩ := hpoint p.1 (Or.inl (List.mem_map_of_mem hp))
      exact ⟨p', hp', heq ▸ hkey, hhook⟩
    · obtain ⟨p', hp', heq⟩ := hpoint point (Or.inr rfl)
      rw [List.mem_singleton.1 hnew]
      exact ⟨p', hp', by rw [heq], rfl⟩

/-- The last entry is read after the others: it must name a point and have a hook. -/
theorem of_readHooks_concat {entries : List (Value × Option Hook)} {key : Value}
    {hook? : Option Hook} {table : List (HookPoint × Hook)}
    (h : readHooks (entries ++ [(key, hook?)]) = .ok table) :
    ∃ before point hook, readHooks entries = .ok before ∧ key = .text point.word ∧
      hook? = some hook ∧ table = putHook point hook before := by
  unfold readHooks at h
  rw [List.foldlM_append] at h
  obtain ⟨before, hbefore, h⟩ := bind_eq_ok_iff.1 h
  obtain ⟨last, hlast, h⟩ := bind_eq_ok_iff.1 h
  cases h
  simp only at hlast
  split at hlast
  · cases hlast
  · cases hlast
  · next hpoint h =>
    clear h
    cases hlast
    split at hpoint
    · obtain rfl := HookPoint.ofWord?_eq_some_iff.1 hpoint
      exact ⟨before, _, _, hbefore, rfl, rfl, rfl⟩
    · cases hpoint

theorem hookTable_of_readHooks {entries : List (Value × Option Hook)}
    {table : List (HookPoint × Hook)} (h : readHooks entries = .ok table) :
    HookTable entries table := by
  induction entries using List.reverseRecOn generalizing table with
  | nil =>
    cases h
    exact ⟨List.nodup_nil, nofun, nofun⟩
  | append_singleton entries entry ih =>
    obtain ⟨before, point, hook, hbefore, hkey, hhook, rfl⟩ := of_readHooks_concat h
    obtain rfl : entry = (.text point.word, some hook) := Prod.ext hkey hhook
    exact (ih hbefore).put point hook

/-! ### One resource -/

def Listed (m : Model) (fields? : Option (List String)) : Prop :=
  ∀ fields, fields? = some fields → ∀ field ∈ fields, field ∈ m.fields

/-- What registration guarantees of the resource that it takes in. -/
structure Fulfils (g : Registration) (r : Resource) : Prop where
  name : g.name = .text r.name
  nonempty : r.name ≠ ""
  slashless : '/' ∉ r.name.toList
  model : r.model = g.model
  collection : r.collection? = g.collection?
  options : Options.resolve g.options = .ok r.options
  sorting : ∀ field ∈ r.options.sorting.allowed, field ∈ r.model.fields
  searching : ∀ field ∈ r.options.searching.fields,
    field ∈ r.model.fields ∧ (r.model.column? field).map Column.kind = some .text
  filtering : ∀ field ∈ r.options.filtering.fields, field ∈ r.model.fields
  permitted : ∀ field ∈ r.permitted, field ∈ r.model.fields
  indexFields : Listed r.model r.indexFields?
  showFields : Listed r.model r.showFields?
  hooks : HookTable g.hooks r.hooks

theorem fulfils_of_define {name : String} {g : Registration} {r : Resource}
    (hname : readName g.name = .ok name) (h : define name g = .ok r) : Fulfils g r := by
  have d := defines_of_define h
  obtain ⟨htext, hnonempty, hslashless⟩ := readName_eq_ok_iff.1 hname
  obtain ⟨hfields, htexts⟩ := checkOptions_eq_ok_iff.1 d.checked
  have hoption : ∀ field, field ∈ r.options.sorting.allowed ++ r.options.searching.fields ++
      r.options.filtering.fields → field ∈ r.model.fields :=
    fun field hfield => hfields field (List.mem_eraseDups.2 hfield)
  have hlisted : ∀ {list : String} {v : Value} {fields? : Option (List String)},
      readFields list g.model v = .ok fields? → Listed r.model fields? := by
    rintro list v fields? hread fields rfl
    rw [d.model]
    exact subset_fields_of_readFields hread
  refine ⟨?_, ?_, ?_, d.model, d.collection, d.options, ?_, ?_, ?_, ?_, hlisted d.indexFields,
    hlisted d.showFields, hookTable_of_readHooks d.hooks⟩
  · rw [d.name, htext]
  · rwa [d.name]
  · rwa [d.name]
  · exact fun field hfield => hoption field (by simp [hfield])
  · exact fun field hfield => ⟨hoption field (by simp [hfield]), htexts field hfield⟩
  · exact fun field hfield => hoption field (by simp [hfield])
  · rw [d.model]
    exact fun field hfield => (of_readPermitted d.permitted field hfield).1

theorem Fulfils.mem_fields {g : Registration} {r : Resource} (h : Fulfils g r) {field : String}
    (hfield : field ∈ r.options.fieldNames) : field ∈ r.model.fields := by
  rcases List.mem_append.1 (List.mem_eraseDups.1 hfield) with hfirst | hfilter
  · exact (List.mem_append.1 hfirst).elim (h.sorting field) fun hsearch =>
      (h.searching field hsearch).1
  · exact h.filtering field hfilter

/-- No listing of a resource without a collection of its own looks at a name that is no column. -/
theorem Fulfils.terms_of_compile {g : Registration} {r : Resource} (h : Fulfils g r)
    (hcollection : r.collection? = none) {store : Store} {params : Entries Value} {l : Listing}
    (hl : Listing.compile store r.options params r.base = .ok l) :
    ∀ t ∈ l.page.terms, ∃ c ∈ r.model.columns, t = .column c := by
  have hbase : r.base = .all r.model := by rw [Resource.base, hcollection, Option.getD_none]
  rw [hbase] at hl
  obtain ⟨s, hs, hpage⟩ := Listing.exists_refine_of_compile hl
  rw [hpage, Listing.terms_paged]
  refine Listing.forall_terms_of_refine rfl rfl (fun t ht => absurd ht List.not_mem_nil) ?_ ?_ ?_
    (fun _ _ c hc => ⟨c, hc, rfl⟩) hs
  · exact fun field hfield => Term.exists_ofField_eq_column (h.filtering field hfield)
  · exact fun field hfield => Term.exists_ofField_eq_column (h.searching field hfield).1
  · exact fun field hfield => Term.exists_ofField_eq_column (h.sorting field hfield)

/-! ### A sequence of registrations -/

/-- A registry with what came of the registrations that led to it. -/
structure History where
  registry : Registry
  outcomes : List (Registration × Except RegistryError Resource)

/-- Ask for one more registration. A refused one leaves the registry. -/
def History.offer (h : History) (g : Registration) : History :=
  match register h.registry g with
  | .ok (registry, r) => ⟨registry, h.outcomes ++ [(g, .ok r)]⟩
  | .error e => ⟨h.registry, h.outcomes ++ [(g, .error e)]⟩

/-- Ask for registrations one after the other, beginning without any resource. -/
def history (gs : List Registration) : History := gs.foldl History.offer ⟨[], []⟩

def History.taken (h : History) : List (Registration × Resource) :=
  h.outcomes.filterMap fun (g, outcome) => outcome.toOption.map fun r => (g, r)

@[simp] theorem history_concat (gs : List Registration) (g : Registration) :
    history (gs ++ [g]) = (history gs).offer g := List.foldl_concat _ _ _ _

/-- The registry holds the resources that were taken in, in their order, under names that differ,
and each fulfils its registration. -/
structure History.Sound (h : History) : Prop where
  registry : h.registry = h.taken.map Prod.snd
  names : h.registry.names.Nodup
  fulfils : ∀ p ∈ h.taken, Fulfils p.1 p.2

theorem names_concat (registry : Registry) (r : Resource) :
    names (registry ++ [r]) = registry.names ++ [r.name] := List.map_append

/-- A registration that is taken in puts its resource, with a name that is new, at the end. -/
theorem of_register {registry registry' : Registry} {g : Registration} {r : Resource}
    (h : register registry g = .ok (registry', r)) :
    registry' = registry ++ [r] ∧ r.name ∉ registry.names ∧ Fulfils g r := by
  obtain ⟨name, hname, h⟩ := bind_eq_ok_iff.1 h
  split at h
  · cases h
  · next hnew =>
    obtain ⟨resource, hdefine, h⟩ := bind_eq_ok_iff.1 h
    cases h
    refine ⟨rfl, ?_, fulfils_of_define hname hdefine⟩
    rw [(defines_of_define hdefine).name]
    simpa using hnew

theorem History.Sound.offer {h : History} (hs : h.Sound) (g : Registration) : (h.offer g).Sound := by
  unfold History.offer
  split
  · next registry r hregister =>
    obtain ⟨rfl, hnew, hfulfils⟩ := of_register hregister
    have htaken : History.taken ⟨h.registry ++ [r], h.outcomes ++ [(g, .ok r)]⟩ =
        h.taken ++ [(g, r)] := List.filterMap_append
    refine ⟨?_, ?_, ?_⟩
    · rw [htaken, List.map_append, ← hs.registry]
      rfl
    · change (Registry.names (h.registry ++ [r])).Nodup
      rw [names_concat, ← List.concat_eq_append]
      exact List.Nodup.concat hnew hs.names
    · intro p hp
      rw [htaken] at hp
      rcases List.mem_append.1 hp with hold | hlast
      · exact hs.fulfils p hold
      · rw [List.mem_singleton.1 hlast]
        exact hfulfils
  · next e _ =>
    have htaken : History.taken ⟨h.registry, h.outcomes ++ [(g, .error e)]⟩ = h.taken :=
      List.filterMap_append.trans (List.append_nil _)
    exact ⟨by rw [htaken]; exact hs.registry, hs.names, by rw [htaken]; exact hs.fulfils⟩

theorem sound_history (gs : List Registration) : (history gs).Sound := by
  induction gs using List.reverseRecOn with
  | nil => exact ⟨rfl, List.nodup_nil, fun p hp => absurd hp List.not_mem_nil⟩
  | append_singleton gs g ih =>
    rw [history_concat]
    exact ih.offer g

theorem map_fst_outcomes (gs : List Registration) :
    (history gs).outcomes.map Prod.fst = gs := by
  induction gs using List.reverseRecOn with
  | nil => rfl
  | append_singleton gs g ih =>
    rw [history_concat]
    unfold History.offer
    split <;> simp [ih]

/-- With names that differ a resource is found exactly under its name. -/
theorem get?_eq_some_iff {registry : Registry} (h : registry.names.Nodup) {name : String}
    {r : Resource} : registry.get? name = some r ↔ r ∈ registry ∧ r.name = name := by
  constructor
  · intro hget
    exact ⟨List.mem_of_find?_eq_some hget, by simpa using List.find?_some hget⟩
  · rintro ⟨hmem, rfl⟩
    induction registry with
    | nil => cases hmem
    | cons first rest ih =>
      obtain ⟨hfirst, hrest⟩ := List.nodup_cons.1 h
      rw [get?, List.find?_cons]
      rcases List.mem_cons.1 hmem with rfl | hin
      · simp
      · have hne : (first.name == r.name) = false :=
          beq_eq_false_iff_ne.2 fun heq => hfirst (heq ▸ List.mem_map_of_mem hin)
        rw [hne]
        exact ih hrest hin

theorem get?_eq_none_iff {registry : Registry} {name : String} :
    registry.get? name = none ↔ name ∉ registry.names := by
  rw [get?, List.find?_eq_none, names, List.mem_map]
  constructor
  · rintro h ⟨r, hr, rfl⟩
    exact h r hr (by simp)
  · intro h r hr heq
    exact h ⟨r, hr, by simpa using heq⟩

/-- After any registrations the registry is sound: its resources are those of the registrations that
were taken in, in their order, found exactly under their names, which differ. Each is what its
registration asks for, and without a collection of its own no field of its options and no term of
its listings is a name that is not a column. A registration that is refused leaves the registry, as
registering gives a new registry and writes none in place. -/
theorem registry_sound (gs : List Registration) :
    (history gs).outcomes.map Prod.fst = gs ∧
      (history gs).registry = (history gs).taken.map Prod.snd ∧
      (history gs).registry.names.Nodup ∧
      (∀ name r, (history gs).registry.get? name = some r ↔
        r ∈ (history gs).registry ∧ r.name = name) ∧
      (∀ name, (history gs).registry.get? name = none ↔ name ∉ (history gs).registry.names) ∧
      (∀ p ∈ (history gs).taken, Fulfils p.1 p.2) ∧
      (∀ r ∈ (history gs).registry, r.collection? = none →
        (∀ field ∈ r.options.fieldNames,
          ∃ c ∈ r.model.columns, Term.ofField r.base.model? field = .column c) ∧
        ∀ store params l, Listing.compile store r.options params r.base = .ok l →
          ∀ t ∈ l.page.terms, ∃ c ∈ r.model.columns, t = .column c) ∧
      ∀ g e, register (history gs).registry g = .error e →
        (history (gs ++ [g])).registry = (history gs).registry := by
  have hs := sound_history gs
  refine ⟨map_fst_outcomes gs, hs.registry, hs.names, fun _ _ => get?_eq_some_iff hs.names,
    fun _ => get?_eq_none_iff, hs.fulfils, ?_, ?_⟩
  · intro r hr hcollection
    rw [hs.registry] at hr
    obtain ⟨⟨g, r⟩, htaken, rfl⟩ := List.mem_map.1 hr
    have hfulfils := hs.fulfils _ htaken
    refine ⟨?_, fun store params l hl => hfulfils.terms_of_compile hcollection hl⟩
    intro field hfield
    rw [Resource.base, hcollection, Option.getD_none]
    exact Term.exists_ofField_eq_column (hfulfils.mem_fields hfield)
  · intro g e he
    rw [history_concat, History.offer, he]

end Registry

end TableApi
