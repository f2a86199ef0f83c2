import TableApi.Proofs.Options.Rules

/-! Which options resolve, and which places are faults of the others. Options resolve exactly when
they name sections and keys that there are, with values that the rules admit; otherwise each place
that does not is told once. -/

namespace TableApi.Options

/-! ### Faults of a tree -/

/-- The keys of a section whose values their rules do not admit. -/
def brokenKeys (keys : Entries Rule) (entries : Entries Value) : List String :=
  (keys.filter fun k => (entries.get? k.1).any fun v => !k.2.accepts v).map Prod.fst

/-- The places of the faults of a section. -/
def sectionPaths (tree : Entries Value) (name : String) (keys : Entries Rule) :
    List (List String) :=
  match tree.get? name with
  | some (.map entries) =>
    (brokenKeys keys entries ++
      (Entries.keys entries).filter fun key => !(Entries.keys keys).contains key).map fun key =>
        [name, key]
  | _ => [[name]]

@[simp] theorem brokenKeys_nil (entries : Entries Value) : brokenKeys [] entries = [] := rfl

theorem brokenKeys_cons (key : String) (rule : Rule) (keys : Entries Rule)
    (entries : Entries Value) : brokenKeys ((key, rule) :: keys) entries =
      (if (entries.get? key).any fun v => !rule.accepts v then [key] else []) ++
        brokenKeys keys entries := by
  unfold brokenKeys
  rw [List.filter_cons]
  split <;> simp_all

section Paths

variable {α : Type} {name : String}

theorem paths_check (read : Value → Except Problem α) (fallback : α) (name : String)
    (entries : Entries Value) (key : String) :
    (check read fallback name entries key).faults.map Fault.path =
      (if (entries.get? key).any fun v => !(read v).isOk then [key] else []).map fun key =>
        [name, key] := by
  unfold check
  cases entries.get? key with
  | none => rfl
  | some v =>
    cases hread : read v <;> simp [hread, Except.isOk, Except.toBool]

theorem paths_checkSection (kind : String) (sectionDefaults : Entries Value)
    {body : Entries Value → Checked α} {keys : Entries Rule}
    (hbody : ∀ e, (body e).faults.map Fault.path = (brokenKeys keys e).map fun key => [name, key])
    (hkeys : Entries.keys sectionDefaults = Entries.keys keys) (tree : Entries Value) :
    (checkSection name kind sectionDefaults body tree).faults.map Fault.path =
      sectionPaths tree name keys := by
  unfold checkSection sectionPaths
  cases tree.get? name with
  | none => rfl
  | some v =>
    cases v with
    | map entries => simp [hbody, unknownKeys, hkeys, Function.comp_def]
    | _ => rfl

end Paths

/-- The places of all faults: those of the known sections, and the unknown ones. -/
theorem paths_checkAll (tree : Entries Value) : (checkAll tree).faults.map Fault.path =
    (rules.flatMap fun rule => sectionPaths tree rule.1 rule.2) ++
      ((Entries.keys tree).filter fun name => !rules.has name).map fun name => [name] := by
  have hpagination : ∀ e, (checkPagination e).faults.map Fault.path =
      (brokenKeys paginationRules e).map fun key => ["pagination", key] := by
    intro e
    simp only [checkPagination, paginationRules, brokenKeys_cons, List.map_append, paths_check,
      List.append_assoc, brokenKeys_nil, List.append_nil]
    rfl
  have hsorting : ∀ e, (checkSorting e).faults.map Fault.path =
      (brokenKeys sortingRules e).map fun key => ["sorting", key] := by
    intro e
    simp only [checkSorting, sortingRules, brokenKeys_cons, List.map_append, paths_check,
      List.append_assoc, brokenKeys_nil, List.append_nil]
    rfl
  have hsearching : ∀ e, (checkSearching e).faults.map Fault.path =
      (brokenKeys searchingRules e).map fun key => ["searching", key] := by
    intro e
    simp only [checkSearching, searchingRules, brokenKeys_cons, List.map_append, paths_check,
      List.append_assoc, brokenKeys_nil, List.append_nil]
    rfl
  have hfiltering : ∀ e, (checkFiltering e).faults.map Fault.path =
      (brokenKeys filteringRules e).map fun key => ["filtering", key] := by
    intro e
    simp only [checkFiltering, filteringRules, brokenKeys_cons, List.map_append, paths_check,
      List.append_assoc, brokenKeys_nil, List.append_nil]
    rfl
  have htotals : ∀ e, (checkTotals e).faults.map Fault.path =
      (brokenKeys totalsRules e).map fun key => ["meta", key] := by
    intro e
    simp only [checkTotals, totalsRules, brokenKeys_cons, List.map_append, paths_check,
      List.append_assoc, brokenKeys_nil, List.append_nil]
    rfl
  simp only [checkAll, List.map_append, List.append_assoc,
    paths_checkSection "PaginationOptions" paginationDefaults hpagination rfl,
    paths_checkSection "SortingOptions" sortingDefaults hsorting rfl,
    paths_checkSection "SearchingOptions" searchingDefaults hsearching rfl,
    paths_checkSection "FilteringOptions" filteringDefaults hfiltering rfl,
    paths_checkSection "MetaOptions" totalsDefaults htotals rfl]
  simp only [unknownSections, has_defaults, List.map_map, rules, List.flatMap_cons,
    List.flatMap_nil, List.append_nil, List.append_assoc]
  rfl

/-! ### Places told once -/

/-- The broken keys of a section and those it does not have are the keys with values that no rule of
theirs admits. -/
theorem mem_brokenKeys_append_iff {keys : Entries Rule} (hkeys : (Entries.keys keys).Nodup)
    {entries : Entries Value} {key : String} :
    key ∈ brokenKeys keys entries ++
        ((Entries.keys entries).filter fun key => !(Entries.keys keys).contains key) ↔
      ∃ v, entries.get? key = some v ∧ ∀ rule, keys.get? key = some rule → ¬ rule.Admits v := by
  have hbroken : key ∈ brokenKeys keys entries ↔
      ∃ rule v, keys.get? key = some rule ∧ entries.get? key = some v ∧ ¬ rule.Admits v := by
    simp only [brokenKeys, List.mem_map, List.mem_filter, Option.any_eq_true, Prod.exists,
      Bool.not_eq_true', ← Rule.accepts_iff, Bool.not_eq_true, Entries.get?_eq_some_iff hkeys]
    aesop
  have hunknown : key ∈ ((Entries.keys entries).filter fun key =>
      !(Entries.keys keys).contains key) ↔
        (∃ v, entries.get? key = some v) ∧ keys.get? key = none := by
    rw [List.mem_filter, Entries.get?_eq_none_iff, ← Option.isSome_iff_exists,
      Option.isSome_iff_ne_none, Ne, Entries.get?_eq_none_iff]
    simp
  rw [List.mem_append, hbroken, hunknown]
  constructor
  · rintro (⟨rule, v, hrule, hv, hnot⟩ | ⟨⟨v, hv⟩, hnone⟩)
    · refine ⟨v, hv, fun other hother => ?_⟩
      rwa [← Option.some.inj (hrule.symm.trans hother)]
    · exact ⟨v, hv, fun rule hrule => absurd (hnone.symm.trans hrule) nofun⟩
  · rintro ⟨v, hv, hnot⟩
    cases hrule : keys.get? key with
    | some rule => exact .inl ⟨rule, v, rfl, hv, hnot rule hrule⟩
    | none => exact .inr ⟨⟨v, hv⟩, rfl⟩

theorem nodup_brokenKeys_append {keys : Entries Rule} (hkeys : (Entries.keys keys).Nodup)
    {entries : Entries Value} (hentries : (Entries.keys entries).Nodup) :
    (brokenKeys keys entries ++
      (Entries.keys entries).filter fun key => !(Entries.keys keys).contains key).Nodup := by
  have hsub : (brokenKeys keys entries).Sublist (Entries.keys keys) :=
    (List.filter_sublist).map Prod.fst
  refine (hkeys.sublist hsub).append (hentries.filter _) fun key hbroken hunknown => ?_
  have hnot := (List.mem_filter.1 hunknown).2
  simp [hsub.subset hbroken] at hnot

/-- Whether every section of a tree names its keys once. -/
def SectionsOnce (tree : Entries Value) : Prop :=
  ∀ name entries, tree.get? name = some (.map entries) → (Entries.keys entries).Nodup

theorem mem_sectionPaths_iff {tree : Entries Value} {name : String} {keys : Entries Rule}
    (hkeys : (Entries.keys keys).Nodup) {path : List String} :
    path ∈ sectionPaths tree name keys ↔
      (path = [name] ∧ ∀ entries, tree.get? name ≠ some (.map entries)) ∨
        ∃ entries key v, path = [name, key] ∧ tree.get? name = some (.map entries) ∧
          Entries.get? entries key = some v ∧ ∀ rule, keys.get? key = some rule → ¬ rule.Admits v := by
  unfold sectionPaths
  cases tree.get? name with
  | none => simp
  | some v =>
    cases v with
    | map entries =>
      simp only [List.mem_map, mem_brokenKeys_append_iff hkeys]
      constructor
      · rintro ⟨key, ⟨v, hv, hnot⟩, rfl⟩
        exact .inr ⟨entries, key, v, rfl, rfl, hv, hnot⟩
      · rintro (⟨-, hno⟩ | ⟨_, key, v, rfl, heq, hv, hnot⟩)
        · exact absurd rfl (hno entries)
        · cases heq
          exact ⟨key, ⟨v, hv, hnot⟩, rfl⟩
    | _ => simp

theorem nodup_sectionPaths {tree : Entries Value} (htree : SectionsOnce tree) (name : String)
    {keys : Entries Rule} (hkeys : (Entries.keys keys).Nodup) :
    (sectionPaths tree name keys).Nodup := by
  unfold sectionPaths
  split
  · next entries hsection =>
    exact (nodup_brokenKeys_append hkeys (htree name entries hsection)).map
      fun a b h => by simpa using h
  · exact List.nodup_singleton _

theorem head?_of_mem_sectionPaths {tree : Entries Value} {name : String} {keys : Entries Rule}
    {path : List String} (h : path ∈ sectionPaths tree name keys) : path.head? = some name := by
  unfold sectionPaths at h
  split at h
  · obtain ⟨key, -, rfl⟩ := List.mem_map.1 h
    rfl
  · rw [List.mem_singleton.1 h]
    rfl

/-- No place is told twice: the places of different sections begin with different names. -/
theorem nodup_paths_checkAll {tree : Entries Value} (hnames : (Entries.keys tree).Nodup)
    (htree : SectionsOnce tree) : ((checkAll tree).faults.map Fault.path).Nodup := by
  have hrules : rules.Pairwise fun a b => a.1 ≠ b.1 := by decide
  have hkeys : ∀ rule ∈ rules, (Entries.keys rule.2).Nodup := by decide
  rw [paths_checkAll]
  refine List.Nodup.append (List.nodup_flatMap.2 ⟨?_, ?_⟩) ?_ ?_
  · exact fun rule hrule => nodup_sectionPaths htree rule.1 (hkeys rule hrule)
  · refine hrules.imp fun hne path ha hb => hne ?_
    exact Option.some.inj ((head?_of_mem_sectionPaths ha).symm.trans (head?_of_mem_sectionPaths hb))
  · exact (hnames.filter _).map fun a b h => by simpa using h
  · intro path hknown hunknown
    obtain ⟨rule, hrule, hpath⟩ := List.mem_flatMap.1 hknown
    obtain ⟨name, hname, rfl⟩ := List.mem_map.1 hunknown
    have hsame : name = rule.1 := Option.some.inj (head?_of_mem_sectionPaths hpath)
    have hnot := (List.mem_filter.1 hname).2
    rw [hsame, Bool.not_eq_true', Entries.has, Option.isSome_eq_false_iff, Option.isNone_iff_eq_none,
      Entries.get?_eq_none_iff] at hnot
    exact hnot (List.mem_map_of_mem hrule)

/-! ### Exactness -/

/-- The places of overrides that are no options: sections that there are not or that are no
mappings, keys that their section does not have, and values that the rule of their key does not
admit. -/
inductive FaultyAt (sections : Entries Value) : List String → Prop
  | unknownSection {name : String} {v : Value} (h : (name, v) ∈ sections)
      (hname : rules.get? name = none) : FaultyAt sections [name]
  | notMapping {name : String} {v : Value} (h : (name, v) ∈ sections) (hv : v.isMap = false) :
      FaultyAt sections [name]
  | unknownKey {name key : String} {keys : Entries Rule} {entries : Entries Value} {v : Value}
      (h : (name, .map entries) ∈ sections) (hname : rules.get? name = some keys)
      (hentry : (key, v) ∈ entries) (hkey : keys.get? key = none) : FaultyAt sections [name, key]
  | refused {name key : String} {keys : Entries Rule} {entries : Entries Value} {v : Value}
      {rule : Rule} (h : (name, .map entries) ∈ sections) (hname : rules.get? name = some keys)
      (hentry : (key, v) ∈ entries) (hkey : keys.get? key = some rule) (hv : ¬ rule.Admits v) :
      FaultyAt sections [name, key]

/-- Overrides that are options: null, or a mapping from sections that there are to mappings from
their keys to values that the rules admit. -/
def Acceptable : Value → Prop
  | .null => True
  | .map sections => ∀ name v, (name, v) ∈ sections → ∃ keys entries,
      rules.get? name = some keys ∧ v = .map entries ∧
        ∀ key w, (key, w) ∈ entries → ∃ rule, keys.get? key = some rule ∧ rule.Admits w
  | _ => False

/-- Whether overrides name each section once, and each section its keys. -/
def NamesOnce : Value → Prop
  | .map sections => (Entries.keys sections).Nodup ∧
      ∀ name entries, (name, .map entries) ∈ sections → (Entries.keys entries).Nodup
  | _ => True

section Merge

variable {sections tree : Entries Value} (honce : NamesOnce (.map sections))
  (hmerged : merge? (.map sections) = some tree)
include honce hmerged

/-- Merging keeps the keys of every section apart. -/
theorem sectionsOnce_of_merge? : SectionsOnce tree := by
  intro name entries hsection
  rw [get?_of_merge? honce.1 hmerged] at hsection
  cases hrules : rules.get? name with
  | none =>
    rw [get?_defaults_eq_none hrules] at hsection
    cases hoverride : Entries.get? sections name with
    | none => simp [hoverride] at hsection
    | some v =>
      have hv : v = .map entries := by simpa [hoverride, overridden] using hsection
      rw [hv] at hoverride
      exact honce.2 name entries (Entries.mem_of_get?_eq_some hoverride)
  | some keys =>
    obtain ⟨current, hcurrent, hnodup, -⟩ := exists_defaults hrules
    rw [hcurrent] at hsection
    cases hoverride : Entries.get? sections name with
    | none =>
      have heq : current = entries := by simpa [hoverride] using hsection
      rwa [← heq]
    | some v =>
      cases v with
      | map additions =>
        have heq : Entries.putAll current additions = entries := by
          simpa [hoverride, overridden] using hsection
        rw [← heq]
        exact Entries.nodup_keys_putAll hnodup additions
      | _ => simp [hoverride, overridden] at hsection

/-- The faults of a known section come from the override of it alone: it is no mapping, or it gives
a key a value that no rule of the key admits. -/
theorem mem_sectionPaths_of_merge? {name : String} {keys : Entries Rule}
    (hname : rules.get? name = some keys) {path : List String} :
    path ∈ sectionPaths tree name keys ↔
      (path = [name] ∧ ∃ v, (name, v) ∈ sections ∧ v.isMap = false) ∨
        ∃ additions key v, path = [name, key] ∧ (name, .map additions) ∈ sections ∧
          (key, v) ∈ additions ∧ ∀ rule, keys.get? key = some rule → ¬ rule.Admits v := by
  obtain ⟨current, hcurrent, -, hadmits⟩ := exists_defaults hname
  rw [mem_sectionPaths_iff (nodup_keys_of_rules hname), get?_of_merge? honce.1 hmerged, hcurrent]
  simp only [← Entries.get?_eq_some_iff honce.1]
  cases hoverride : Entries.get? sections name with
  | none =>
    simp only [Option.map_none, Option.none_or]
    constructor
    · rintro (⟨-, hno⟩ | ⟨entries, key, v, -, heq, hv, hnot⟩)
      · exact absurd rfl (hno current)
      · cases heq
        obtain ⟨rule, hrule, hv⟩ := hadmits key v hv
        exact absurd hv (hnot rule hrule)
    · rintro (⟨-, v, hv, -⟩ | ⟨additions, key, v, -, hv, -⟩) <;> cases hv
  | some override =>
    cases override with
    | map additions =>
      have hadditions : (Entries.keys additions).Nodup :=
        honce.2 name additions (Entries.mem_of_get?_eq_some hoverride)
      simp only [Option.map_some, overridden, Option.some_or]
      constructor
      · rintro (⟨-, hno⟩ | ⟨entries, key, v, rfl, heq, hv, hnot⟩)
        · exact absurd rfl (hno _)
        · cases heq
          rw [Entries.get?_putAll hadditions] at hv
          cases hkey : Entries.get? additions key with
          | some w =>
            have heq : w = v := by simpa [hkey] using hv
            rw [heq] at hkey
            exact .inr ⟨additions, key, v, rfl, rfl, Entries.mem_of_get?_eq_some hkey, hnot⟩
          | none =>
            -- A value from the defaults keeps to its rule.
            obtain ⟨rule, hrule, hv⟩ := hadmits key v (by simpa [hkey] using hv)
            exact absurd hv (hnot rule hrule)
      · rintro (⟨-, v, hv, hmap⟩ | ⟨_, key, v, rfl, hv, hentry, hnot⟩)
        · cases hv
          cases hmap
        · cases hv
          refine .inr ⟨_, key, v, rfl, rfl, ?_, hnot⟩
          rw [Entries.get?_putAll hadditions, (Entries.get?_eq_some_iff hadditions).2 hentry]
          rfl
    | _ => simp [overridden, Value.isMap]

/-- The places that are told for overrides are the faulty ones. -/
theorem mem_paths_checkAll_iff {path : List String} :
    path ∈ (checkAll tree).faults.map Fault.path ↔ FaultyAt sections path := by
  rw [paths_checkAll, List.mem_append, List.mem_flatMap, List.mem_map]
  constructor
  · rintro (⟨⟨name, keys⟩, hrule, hpath⟩ | ⟨name, hname, rfl⟩)
    · have hname : rules.get? name = some keys :=
        (Entries.get?_eq_some_iff (by decide)).2 hrule
      rcases (mem_sectionPaths_of_merge? honce hmerged hname).1 hpath with
        ⟨rfl, v, hmem, hv⟩ | ⟨additions, key, v, rfl, hmem, hentry, hnot⟩
      · exact .notMapping hmem hv
      · cases hkey : keys.get? key with
        | none => exact .unknownKey hmem hname hentry hkey
        | some rule => exact .refused hmem hname hentry hkey (hnot rule hkey)
    · obtain ⟨hmem, hunknown⟩ := List.mem_filter.1 hname
      have hnone : rules.get? name = none := by simpa [Entries.has] using hunknown
      obtain ⟨v, hv⟩ :=
        Option.ne_none_iff_exists'.1 (mt Entries.get?_eq_none_iff.1 (not_not.2 hmem))
      rw [get?_of_merge? honce.1 hmerged, get?_defaults_eq_none hnone, Option.or_none] at hv
      obtain ⟨override, hoverride, -⟩ := Option.map_eq_some_iff.1 hv
      exact .unknownSection (Entries.mem_of_get?_eq_some hoverride) hnone
  · have hknown {name : String} {keys : Entries Rule} (hname : rules.get? name = some keys)
        (hpath : path ∈ sectionPaths tree name keys) :
        ∃ rule ∈ rules, path ∈ sectionPaths tree rule.1 rule.2 :=
      ⟨(name, keys), Entries.mem_of_get?_eq_some hname, hpath⟩
    have hunknown {name : String} {v : Value} (hmem : (name, v) ∈ sections)
        (hname : rules.get? name = none) :
        name ∈ (Entries.keys tree).filter fun name => !rules.has name := by
      refine List.mem_filter.2 ⟨not_not.1 (mt Entries.get?_eq_none_iff.2 ?_),
        by simp [Entries.has, hname]⟩
      rw [get?_of_merge? honce.1 hmerged, (Entries.get?_eq_some_iff honce.1).2 hmem]
      simp
    rintro (⟨hmem, hname⟩ | ⟨hmem, hv⟩ | ⟨hmem, hname, hentry, hkey⟩ |
      ⟨hmem, hname, hentry, hkey, hv⟩)
    · exact .inr ⟨_, hunknown hmem hname, rfl⟩
    · next name v =>
      cases hname : rules.get? name with
      | none => exact .inr ⟨_, hunknown hmem hname, rfl⟩
      | some keys =>
        exact .inl (hknown hname ((mem_sectionPaths_of_merge? honce hmerged hname).2
          (.inl ⟨rfl, v, hmem, hv⟩)))
    · refine .inl (hknown hname ((mem_sectionPaths_of_merge? honce hmerged hname).2
        (.inr ⟨_, _, _, rfl, hmem, hentry, fun rule hrule => ?_⟩)))
      rw [hkey] at hrule
      cases hrule
    · refine .inl (hknown hname ((mem_sectionPaths_of_merge? honce hmerged hname).2
        (.inr ⟨_, _, _, rfl, hmem, hentry, fun rule hrule => ?_⟩)))
      rwa [← Option.some.inj (hkey.symm.trans hrule)]

end Merge

/-- Overrides that are a mapping are options exactly when no place of theirs is faulty. -/
theorem acceptable_map_iff {sections : Entries Value} :
    Acceptable (.map sections) ↔ ∀ path, ¬ FaultyAt sections path := by
  constructor
  · intro h path hpath
    cases hpath with
    | unknownSection hmem hname =>
      obtain ⟨keys, entries, hkeys, -⟩ := h _ _ hmem
      cases hname.symm.trans hkeys
    | notMapping hmem hv =>
      obtain ⟨keys, entries, -, rfl, -⟩ := h _ _ hmem
      cases hv
    | unknownKey hmem hname hentry hkey =>
      obtain ⟨keys, entries, hkeys, heq, hall⟩ := h _ _ hmem
      cases heq
      cases hname.symm.trans hkeys
      obtain ⟨rule, hrule, -⟩ := hall _ _ hentry
      cases hkey.symm.trans hrule
    | refused hmem hname hentry hkey hv =>
      obtain ⟨keys, entries, hkeys, heq, hall⟩ := h _ _ hmem
      cases heq
      cases hname.symm.trans hkeys
      obtain ⟨rule, hrule, hadmits⟩ := hall _ _ hentry
      cases hkey.symm.trans hrule
      exact hv hadmits
  · intro h name v hmem
    cases hname : rules.get? name with
    | none => exact absurd (.unknownSection hmem hname) (h _)
    | some keys =>
      cases v with
      | map entries =>
        refine ⟨keys, entries, rfl, rfl, fun key w hentry => ?_⟩
        cases hkey : keys.get? key with
        | none => exact absurd (.unknownKey hmem hname hentry hkey) (h _)
        | some rule =>
          refine ⟨rule, rfl, ?_⟩
          by_contra hnot
          exact h _ (.refused hmem hname hentry hkey hnot)
      | _ => exact absurd (.notMapping hmem rfl) (h _)

/-- Overrides resolve exactly when they are options. When they are not, they are refused as no
mapping or with their faults, of which there is exactly one for each faulty place. -/
theorem resolve_exact {overrides : Value} (h : NamesOnce overrides) :
    ((∃ o, resolve overrides = .ok o) ↔ Acceptable overrides) ∧
      ∀ e, resolve overrides = .error e →
        ((∀ sections, overrides ≠ .map sections) → e = .notMapping) ∧
          ∀ sections, overrides = .map sections → (e.faults.map Fault.path).Nodup ∧
            ∀ path, path ∈ e.faults.map Fault.path ↔ FaultyAt sections path := by
  cases overrides with
  | null =>
    have hresolved : (resolve .null).isOk = true := by decide +kernel
    cases hrun : resolve .null with
    | ok o => exact ⟨by simp [Acceptable], nofun⟩
    | error e =>
      rw [hrun] at hresolved
      cases hresolved
  | map sections =>
    obtain ⟨tree, hmerged⟩ : ∃ tree, merge? (.map sections) = some tree := ⟨_, rfl⟩
    have hpaths : ∀ path, path ∈ (checkAll tree).faults.map Fault.path ↔ FaultyAt sections path :=
      fun _ => mem_paths_checkAll_iff h hmerged
    have hresolve : resolve (.map sections) =
        if (checkAll tree).faults.isEmpty then .ok (checkAll tree).value
        else .error (.faulty (checkAll tree).faults) := by
      rw [resolve, hmerged]
    have hempty : (checkAll tree).faults = [] ↔ ∀ path, ¬ FaultyAt sections path := by
      simp only [← hpaths]
      rw [← List.map_eq_nil_iff (f := Fault.path), List.eq_nil_iff_forall_not_mem]
    rw [acceptable_map_iff, ← hempty, hresolve]
    cases hfaults : (checkAll tree).faults with
    | nil => exact ⟨by simp, nofun⟩
    | cons fault rest =>
      refine ⟨by simp, fun e he => ⟨fun hno => absurd rfl (hno sections), ?_⟩⟩
      intro others hothers
      cases hothers
      have hthis : e.faults = (checkAll tree).faults := by
        rw [← Except.error.inj he, hfaults]
        rfl
      rw [hthis]
      exact ⟨nodup_paths_checkAll (nodup_keys_of_merge? h.1 hmerged)
        (sectionsOnce_of_merge? h hmerged), hpaths⟩
  | _ =>
    refine ⟨⟨?_, ?_⟩, fun e he => ⟨fun _ => (Except.error.inj he).symm, nofun⟩⟩
    · rintro ⟨o, ho⟩
      cases ho
    · intro hno
      cases hno

/-- Overrides with a sound section, one with a faulty value and an unknown key, and one that is no
mapping. -/
def mixedOverrides : Entries Value := [
  ("sorting", .map [("enabled", .bool true), ("allowed_fields", .tuple [.text "id"])]),
  ("pagination", .map [("max_per", .bool true), ("sizes", .null)]), ("meta", .text "rows")]

/-- Exactly three places of the mixed overrides are faulty, and each is told once. -/
theorem faults_of_mixedOverrides : ∃ e, resolve (.map mixedOverrides) = .error e ∧
    (e.faults.map Fault.path).Nodup ∧ ∀ path, FaultyAt mixedOverrides path ↔
      path ∈ [["pagination", "max_per"], ["pagination", "sizes"], ["meta"]] := by
  have honce : NamesOnce (.map mixedOverrides) := by
    refine ⟨by decide, fun name entries hmem => ?_⟩
    have hall : ∀ entry ∈ mixedOverrides, (match entry.2 with
        | .map entries => decide (Entries.keys entries).Nodup
        | _ => true) = true := by
      decide +kernel
    simpa using hall _ hmem
  have hrun : (match resolve (.map mixedOverrides) with
      | .ok _ => []
      | .error e => e.faults.map Fault.path) =
        [["pagination", "max_per"], ["pagination", "sizes"], ["meta"]] := by
    decide +kernel
  cases hresolve : resolve (.map mixedOverrides) with
  | ok o =>
    rw [hresolve] at hrun
    cases hrun
  | error e =>
    rw [hresolve] at hrun
    obtain ⟨hnodup, hpaths⟩ := ((resolve_exact honce).2 e hresolve).2 _ rfl
    refine ⟨e, rfl, hnodup, fun path => ?_⟩
    rw [← hpaths, ← hrun]

end TableApi.Options
