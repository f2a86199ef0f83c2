import TableApi.Proofs.Options
import TableApi.Proofs.Options.Faults

/-! What overrides resolve to. Each option is the one that they give, or else its default; a list of
fields is kept as the distinct names in it, in order. Options that are given back in full, as
overrides, resolve to themselves. -/

namespace TableApi.Options

open Text

/-! ### Options by section and key -/

/-- What overrides give at a key of a section. -/
def given? (overrides : Value) (name key : String) : Option Value :=
  match overrides with
  | .map sections =>
    match Entries.get? sections name with
    | some (.map entries) => Entries.get? entries key
    | _ => none
  | _ => none

def default? (name key : String) : Option Value := given? (.map defaults) name key

def Pagination.entries (p : Pagination) : Entries Value := [
  ("enabled", .bool p.enabled), ("page_param", .text p.pageParam),
  ("per_param", .text p.sizeParam), ("default_per", .int p.defaultSize.1),
  ("max_per", .int p.maxSize.1)]

def Sorting.entries (s : Sorting) : Entries Value := [
  ("enabled", .bool s.enabled), ("sort_param", .text s.sortParam),
  ("default_direction", .text s.defaultDirection.word),
  ("allowed_fields", .set (s.allowed.map .text))]

def Searching.entries (s : Searching) : Entries Value := [
  ("enabled", .bool s.enabled), ("search_param", .text s.searchParam),
  ("searchable_fields", .tuple (s.fields.map .text))]

def Filtering.entries (f : Filtering) : Entries Value := [
  ("enabled", .bool f.enabled), ("filter_param", .text f.filterParam),
  ("filterable_fields", .set (f.fields.map .text))]

def Totals.entries (t : Totals) : Entries Value := [
  ("enabled", .bool t.enabled), ("rows_key", .text t.rowsKey), ("total_key", .text t.totalKey)]

/-- All options as a tree of values, which can be given back as overrides. -/
def sections (o : Options) : Entries Value := [
  ("pagination", .map o.pagination.entries), ("sorting", .map o.sorting.entries),
  ("searching", .map o.searching.entries), ("filtering", .map o.filtering.entries),
  ("meta", .map o.totals.entries)]

/-- The option that a value settles: the value itself, or for a list of fields its names, each once
and in the order in which they first come. -/
inductive Rule.Settles : Rule → Value → Value → Prop
  | same {rule : Rule} {v : Value} (h : rule ≠ .fieldNames) : Rule.Settles rule v v
  | noFields {w : Value} (hw : Registry.listed? w = some []) : Rule.Settles .fieldNames .null w
  | fields {v w : Value} {names : List String} (hv : Registry.listed? v = some (names.map .text))
      (hw : Registry.listed? w = some (names.eraseDups.map .text)) :
      Rule.Settles .fieldNames v w

/-- Options into which overrides are merged, one level deep: at every key of every section stands
what the overrides give there, or else what the defaults do. -/
def MergedFrom (overrides : Value) (o : Options) : Prop :=
  ∀ name keys key rule, rules.get? name = some keys → keys.get? key = some rule →
    ∃ v w, (given? overrides name key).or (default? name key) = some v ∧
      given? (.map o.sections) name key = some w ∧ rule.Settles v w

/-! ### Values that are read -/

/-- The names that are read, behind those that were seen, are the new ones, each once. -/
theorem readNames_eq_ok {items : List Value} {seen names : List String}
    (h : readNames seen items = .ok names) : ∃ texts : List String, items = texts.map .text ∧
      names = seen ++ (texts.filter fun s => !seen.contains s).eraseDups := by
  induction items generalizing seen with
  | nil =>
    cases h
    exact ⟨[], rfl, by simp⟩
  | cons item rest ih =>
    cases item with
    | text s =>
      rw [readNames] at h
      split at h
      · obtain ⟨texts, rfl, rfl⟩ := ih h
        refine ⟨s :: texts, rfl, ?_⟩
        by_cases hs : s ∈ seen
        · simp [hs]
        · have hnew : (texts.filter fun t => !(seen ++ [s]).contains t) =
              (texts.filter fun t => !seen.contains t).filter fun t => !t == s := by
            rw [List.filter_filter]
            exact List.filter_congr fun t _ => by rw [Bool.eq_iff_iff]; simp [and_comm]
          rw [if_neg (by simpa using hs), hnew, List.filter_cons_of_pos (by simpa using hs),
            List.eraseDups_cons, List.append_assoc, List.singleton_append]
      · cases h
    | _ => cases h

theorem settles_readBool {v : Value} {b : Bool} (h : readBool v = .ok b) :
    Rule.truth.Settles v (.bool b) := by
  cases v with
  | bool => cases h; exact .same (by decide)
  | _ => cases h

theorem settles_readName {v : Value} {s : String} (h : readName v = .ok s) :
    Rule.name.Settles v (.text s) := by
  cases v with
  | text t =>
    rw [readName] at h
    split at h
    · cases h
    · cases h; exact .same (by decide)
  | _ => cases h

theorem settles_readPositive {v : Value} {n : Positive} (h : readPositive v = .ok n) :
    Rule.count.Settles v (.int n.1) := by
  cases v with
  | int i =>
    rw [readPositive] at h
    split at h
    · next hi =>
      cases h
      rw [Int.toNat_of_nonneg (by omega)]
      exact .same (by decide)
    · cases h
  | _ => cases h

theorem settles_readDirection {v : Value} {d : Direction} (h : readDirection v = .ok d) :
    Rule.direction.Settles v (.text d.word) := by
  unfold readDirection at h
  split at h
  · split at h
    · next hasc => cases h; rw [hasc]; exact .same (by decide)
    · split at h
      · next hdesc => cases h; rw [hdesc]; exact .same (by decide)
      · cases h
  · cases h

theorem settles_readFieldNames {v w : Value} {names : List String}
    (h : readFieldNames v = .ok names) (hw : Registry.listed? w = some (names.map .text)) :
    Rule.fieldNames.Settles v w := by
  have hread {items : List Value} (hv : Registry.listed? v = some items)
      (hitems : readNames [] items = .ok names) : Rule.fieldNames.Settles v w := by
    obtain ⟨texts, rfl, hnames⟩ := readNames_eq_ok hitems
    refine .fields hv (hw.trans ?_)
    simp [hnames]
  cases v with
  | null =>
    cases h
    exact .noFields hw
  | list | tuple | set | map => exact hread rfl h
  | _ => cases h

/-! ### Sections that are checked -/

/-- Every key of a section has an option that its value settles. -/
def Settled (keys : Entries Rule) (entries options : Entries Value) : Prop :=
  ∀ key rule v, keys.get? key = some rule → Entries.get? entries key = some v →
    ∃ w, Entries.get? options key = some w ∧ rule.Settles v w

section Settled

variable {keys : Entries Rule} {entries options : Entries Value}

theorem Settled.nil : Settled [] entries options := nofun

theorem Settled.cons {key : String} {rule : Rule} {w : Value}
    (h : ∀ v, Entries.get? entries key = some v → rule.Settles v w)
    (hrest : Settled keys entries options) :
    Settled ((key, rule) :: keys) entries ((key, w) :: options) := by
  intro other r v hr hv
  rw [Entries.get?_cons] at hr ⊢
  split at hr
  · next heq =>
    cases hr
    rw [← heq] at hv
    exact ⟨w, if_pos heq, h v hv⟩
  · next hne =>
    rw [if_neg hne]
    exact hrest other r v hr hv

theorem check_value {α : Type} {read : Value → Except Problem α} {fallback : α} {name key : String}
    (h : (check read fallback name entries key).faults = []) {v : Value}
    (hv : Entries.get? entries key = some v) :
    read v = .ok (check read fallback name entries key).value := by
  unfold check at h ⊢
  rw [hv] at h ⊢
  cases hread : read v with
  | ok a => simp only [hread]
  | error problem => simp [hread] at h

theorem settled_checkPagination (h : (checkPagination entries).faults = []) :
    Settled paginationRules entries (checkPagination entries).value.entries := by
  simp only [checkPagination, List.append_eq_nil_iff, and_assoc] at h
  obtain ⟨henabled, hpage, hsize, hdefault, hmax⟩ := h
  exact .cons (fun _ hv => settles_readBool (check_value henabled hv)) <|
    .cons (fun _ hv => settles_readName (check_value hpage hv)) <|
    .cons (fun _ hv => settles_readName (check_value hsize hv)) <|
    .cons (fun _ hv => settles_readPositive (check_value hdefault hv)) <|
    .cons (fun _ hv => settles_readPositive (check_value hmax hv)) .nil

theorem settled_checkSorting (h : (checkSorting entries).faults = []) :
    Settled sortingRules entries (checkSorting entries).value.entries := by
  simp only [checkSorting, List.append_eq_nil_iff, and_assoc] at h
  obtain ⟨henabled, hsort, hdirection, hallowed⟩ := h
  exact .cons (fun _ hv => settles_readBool (check_value henabled hv)) <|
    .cons (fun _ hv => settles_readName (check_value hsort hv)) <|
    .cons (fun _ hv => settles_readDirection (check_value hdirection hv)) <|
    .cons (fun _ hv => settles_readFieldNames (check_value hallowed hv) rfl) .nil

theorem settled_checkSearching (h : (checkSearching entries).faults = []) :
    Settled searchingRules entries (checkSearching entries).value.entries := by
  simp only [checkSearching, List.append_eq_nil_iff, and_assoc] at h
  obtain ⟨henabled, hsearch, hfields⟩ := h
  exact .cons (fun _ hv => settles_readBool (check_value henabled hv)) <|
    .cons (fun _ hv => settles_readName (check_value hsearch hv)) <|
    .cons (fun _ hv => settles_readFieldNames (check_value hfields hv) rfl) .nil

theorem settled_checkFiltering (h : (checkFiltering entries).faults = []) :
    Settled filteringRules entries (checkFiltering entries).value.entries := by
  simp only [checkFiltering, List.append_eq_nil_iff, and_assoc] at h
  obtain ⟨henabled, hfilter, hfields⟩ := h
  exact .cons (fun _ hv => settles_readBool (check_value henabled hv)) <|
    .cons (fun _ hv => settles_readName (check_value hfilter hv)) <|
    .cons (fun _ hv => settles_readFieldNames (check_value hfields hv) rfl) .nil

theorem settled_checkTotals (h : (checkTotals entries).faults = []) :
    Settled totalsRules entries (checkTotals entries).value.entries := by
  simp only [checkTotals, List.append_eq_nil_iff, and_assoc] at h
  obtain ⟨henabled, hrows, htotal⟩ := h
  exact .cons (fun _ hv => settles_readBool (check_value henabled hv)) <|
    .cons (fun _ hv => settles_readName (check_value hrows hv)) <|
    .cons (fun _ hv => settles_readName (check_value htotal hv)) .nil

end Settled

/-- A section without faults is a mapping, whose values settle its options when its body, finding no
fault, has them do so. -/
theorem settled_checkSection {α : Type} {name kind : String}
    {sectionDefaults tree : Entries Value} {body : Entries Value → Checked α} {keys : Entries Rule}
    {options : α → Entries Value}
    (hbody : ∀ entries, (body entries).faults = [] →
      Settled keys entries (options (body entries).value))
    (h : (checkSection name kind sectionDefaults body tree).faults = []) :
    ∃ entries, tree.get? name = some (.map entries) ∧
      Settled keys entries (options (checkSection name kind sectionDefaults body tree).value) := by
  unfold checkSection at h ⊢
  split at h
  · next entries hentries =>
    exact ⟨entries, hentries, hbody entries (List.append_eq_nil_iff.1 h).1⟩
  · cases h

/-- A tree without faults settles the options of every section. -/
theorem settled_checkAll {tree : Entries Value} (h : (checkAll tree).faults = []) {name : String}
    {keys : Entries Rule} (hname : rules.get? name = some keys) :
    ∃ entries options, tree.get? name = some (.map entries) ∧
      Entries.get? (checkAll tree).value.sections name = some (.map options) ∧
      Settled keys entries options := by
  simp only [checkAll, List.append_eq_nil_iff, and_assoc] at h
  obtain ⟨hpagination, hsorting, hsearching, hfiltering, htotals, -⟩ := h
  have hmem := Entries.mem_of_get?_eq_some hname
  simp only [rules, List.mem_cons, Prod.mk.injEq, List.not_mem_nil, or_false] at hmem
  rcases hmem with ⟨rfl, rfl⟩ | ⟨rfl, rfl⟩ | ⟨rfl, rfl⟩ | ⟨rfl, rfl⟩ | ⟨rfl, rfl⟩
  · obtain ⟨entries, hentries, hsettled⟩ :=
      settled_checkSection (fun _ => settled_checkPagination) hpagination
    exact ⟨entries, _, hentries, rfl, hsettled⟩
  · obtain ⟨entries, hentries, hsettled⟩ :=
      settled_checkSection (fun _ => settled_checkSorting) hsorting
    exact ⟨entries, _, hentries, rfl, hsettled⟩
  · obtain ⟨entries, hentries, hsettled⟩ :=
      settled_checkSection (fun _ => settled_checkSearching) hsearching
    exact ⟨entries, _, hentries, rfl, hsettled⟩
  · obtain ⟨entries, hentries, hsettled⟩ :=
      settled_checkSection (fun _ => settled_checkFiltering) hfiltering
    exact ⟨entries, _, hentries, rfl, hsettled⟩
  · obtain ⟨entries, hentries, hsettled⟩ :=
      settled_checkSection (fun _ => settled_checkTotals) htotals
    exact ⟨entries, _, hentries, rfl, hsettled⟩

/-! ### Merging -/

theorem exists_default {name key : String} {keys : Entries Rule} {rule : Rule}
    (hname : rules.get? name = some keys) (hkey : keys.get? key = some rule) :
    ∃ v, default? name key = some v := by
  have hall : ∀ sectionRules ∈ rules, ∀ keyRule ∈ sectionRules.2,
      (default? sectionRules.1 keyRule.1).isSome = true := by
    decide +kernel
  exact Option.isSome_iff_exists.1 (hall (name, keys) (Entries.mem_of_get?_eq_some hname)
    (key, rule) (Entries.mem_of_get?_eq_some hkey))

theorem given?_of_merge? {overrides tree : Entries Value} (honce : NamesOnce (.map overrides))
    (hacceptable : Acceptable (.map overrides)) (hmerged : merge? (.map overrides) = some tree)
    {name : String} {keys : Entries Rule} (hname : rules.get? name = some keys) (key : String) :
    given? (.map tree) name key =
      (given? (.map overrides) name key).or (default? name key) := by
  obtain ⟨current, hcurrent, -⟩ := exists_defaults hname
  have htree := get?_of_merge? honce.1 hmerged name
  cases hoverride : Entries.get? overrides name with
  | none => simp [given?, default?, htree, hoverride, hcurrent]
  | some v =>
    have hmem := Entries.mem_of_get?_eq_some hoverride
    obtain ⟨-, additions, -, rfl, -⟩ := hacceptable name v hmem
    have hadditions : (Entries.keys additions).Nodup := honce.2 name additions hmem
    simp [given?, default?, htree, hoverride, hcurrent, overridden, Entries.get?_putAll hadditions]

/-- A mapping that resolves is acceptable, and its options come out of the merged tree, in which
there is no fault. -/
theorem exists_tree_of_resolve {overrides : Entries Value} {o : Options}
    (honce : NamesOnce (.map overrides)) (h : resolve (.map overrides) = .ok o) :
    ∃ tree, merge? (.map overrides) = some tree ∧ (checkAll tree).faults = [] ∧
      (checkAll tree).value = o ∧ Acceptable (.map overrides) := by
  obtain ⟨tree, hmerged⟩ : ∃ tree, merge? (.map overrides) = some tree := ⟨_, rfl⟩
  simp only [resolve, hmerged] at h
  split at h
  · next hempty =>
    rw [List.isEmpty_iff] at hempty
    refine ⟨tree, hmerged, hempty, Except.ok.inj h, acceptable_map_iff.2 fun path hpath => ?_⟩
    have hfault := (mem_paths_checkAll_iff honce hmerged).2 hpath
    rw [hempty] at hfault
    cases hfault
  · cases h

/-- Overrides are merged one level deep into the defaults. -/
theorem mergedFrom_of_resolve {overrides : Value} {o : Options} (honce : NamesOnce overrides)
    (h : resolve overrides = .ok o) : MergedFrom overrides o := by
  have hmap {sections : Entries Value} (honce : NamesOnce (.map sections))
      (h : resolve (.map sections) = .ok o) : MergedFrom (.map sections) o := by
    intro name keys key rule hname hkey
    obtain ⟨tree, hmerged, hfaults, rfl, hacceptable⟩ := exists_tree_of_resolve honce h
    obtain ⟨entries, options, hentries, hoptions, hsettled⟩ := settled_checkAll hfaults hname
    have hgiven := given?_of_merge? honce hacceptable hmerged hname key
    obtain ⟨v, hv⟩ : ∃ v,
        (given? (.map sections) name key).or (default? name key) = some v := by
      obtain ⟨d, hd⟩ := exists_default hname hkey
      rw [hd]
      cases given? (.map sections) name key <;> simp
    have hentry : Entries.get? entries key = some v := by
      rw [← hv, ← hgiven]
      simp [given?, hentries]
    obtain ⟨w, hw, hsettles⟩ := hsettled key rule v hkey hentry
    exact ⟨v, w, hv, by simpa [given?, hoptions] using hw, hsettles⟩
  cases overrides with
  -- Null overrides nothing, as an empty mapping does.
  | null =>
    have hempty : MergedFrom (.map []) o := hmap ⟨List.nodup_nil, nofun⟩ h
    exact hempty
  | map sections => exact hmap honce h
  | _ => cases h

/-! ### Options given back -/

/-- A list of fields as options hold it: safe names, each once. -/
structure IsFieldList (names : List String) : Prop where
  nodup : names.Nodup
  safe : ∀ s ∈ names, isSafeName s = true

/-- What holds of all options that were read: parameters and keys have names. -/
structure IsSound (o : Options) : Prop where
  pageParam : o.pagination.pageParam ≠ ""
  sizeParam : o.pagination.sizeParam ≠ ""
  sortParam : o.sorting.sortParam ≠ ""
  searchParam : o.searching.searchParam ≠ ""
  filterParam : o.filtering.filterParam ≠ ""
  rowsKey : o.totals.rowsKey ≠ ""
  totalKey : o.totals.totalKey ≠ ""
  allowed : IsFieldList o.sorting.allowed
  searched : IsFieldList o.searching.fields
  filtered : IsFieldList o.filtering.fields

theorem ne_empty_of_readName {v : Value} {s : String} (h : readName v = .ok s) : s ≠ "" := by
  unfold readName at h
  split at h
  · split at h
    · cases h
    · next hs =>
      cases h
      simpa using hs
  · cases h

theorem nodup_eraseDups (names : List String) : names.eraseDups.Nodup := by
  match names with
  | [] => exact List.nodup_nil
  | s :: rest =>
    rw [List.eraseDups_cons, List.nodup_cons]
    exact ⟨by simp, nodup_eraseDups (rest.filter fun t => !t == s)⟩
termination_by names.length
decreasing_by exact Nat.lt_succ_of_le (List.length_filter_le _ _)

theorem isFieldList_of_readFieldNames {v : Value} {names : List String}
    (h : readFieldNames v = .ok names) : IsFieldList names := by
  have hread {items : List Value} (hitems : readNames [] items = .ok names) : names.Nodup := by
    obtain ⟨texts, -, rfl⟩ := readNames_eq_ok hitems
    simpa using nodup_eraseDups texts
  refine ⟨?_, isSafeName_of_readFieldNames h⟩
  cases v with
  | null => cases h; exact List.nodup_nil
  | list | tuple | set | map => exact hread h
  | _ => cases h

/-- Options that resolve are sound. -/
theorem isSound_of_resolve {overrides : Value} {o : Options} (h : resolve overrides = .ok o) :
    o.IsSound := by
  have hnamed {s name key : String} {e : Entries Value} (hs : s ≠ "") :
      (check readName s name e key).value ≠ "" :=
    holds_check (P := fun s => s ≠ "") hs fun _ _ => ne_empty_of_readName
  have hfields {name key : String} {e : Entries Value} :
      IsFieldList (check readFieldNames [] name e key).value :=
    holds_check ⟨List.nodup_nil, nofun⟩ fun _ _ => isFieldList_of_readFieldNames
  obtain ⟨e₁, e₂, e₃, e₄, e₅, rfl⟩ := exists_checked_of_resolve h
  exact ⟨hnamed (by decide), hnamed (by decide), hnamed (by decide), hnamed (by decide),
    hnamed (by decide), hnamed (by decide), hnamed (by decide), hfields, hfields, hfields⟩

/-- Options that are equal: the order in which their two sets of fields are listed is open. -/
structure Same (o p : Options) : Prop where
  allowed : o.sorting.allowed.Perm p.sorting.allowed
  filterable : o.filtering.fields.Perm p.filtering.fields
  others : p = { o with
    sorting.allowed := p.sorting.allowed, filtering.fields := p.filtering.fields }

theorem IsFieldList.of_perm {names others : List String} (h : IsFieldList names)
    (hperm : names.Perm others) : IsFieldList others :=
  ⟨hperm.nodup_iff.1 h.nodup, fun s hs => h.safe s (hperm.mem_iff.2 hs)⟩

theorem IsSound.of_same {o p : Options} (h : o.IsSound) (hsame : o.Same p) : p.IsSound := by
  rw [hsame.others]
  exact { h with
    allowed := h.allowed.of_perm hsame.allowed
    filtered := h.filtered.of_perm hsame.filterable }

theorem merge?_sections (o : Options) : merge? (.map o.sections) = some o.sections := by
  simp [merge?, sections, defaults, mergeSection, Entries.put, Entries.get?_cons, Entries.putAll,
    Pagination.entries, Sorting.entries, Searching.entries, Filtering.entries, Totals.entries,
    paginationDefaults, sortingDefaults, searchingDefaults, filteringDefaults, totalsDefaults]

theorem readName_text {s : String} (h : s ≠ "") : readName (.text s) = .ok s := by
  simp [readName, h]

theorem readPositive_int (n : Positive) : readPositive (.int n.1) = .ok n := by
  have hn : (1 : Int) ≤ n.1 := by exact_mod_cast n.2
  simp [readPositive, hn]

theorem readDirection_text (d : Direction) : readDirection (.text d.word) = .ok d := by
  cases d <;> rfl

theorem readNames_texts {texts : List String} (h : ∀ s ∈ texts, isSafeName s = true)
    (seen : List String) (hnodup : (seen ++ texts).Nodup) :
    readNames seen (texts.map .text) = .ok (seen ++ texts) := by
  induction texts generalizing seen with
  | nil => simp [readNames]
  | cons s rest ih =>
    obtain ⟨hs, hrest⟩ := List.forall_mem_cons.1 h
    have hnew : s ∉ seen := fun hmem =>
      (List.nodup_append.1 hnodup).2.2 s hmem s List.mem_cons_self rfl
    rw [List.map_cons, readNames, if_pos hs, if_neg (by simpa using hnew),
      ih hrest _ (by simpa using hnodup), List.append_assoc, List.singleton_append]

theorem readFieldNames_texts {names : List String} (h : IsFieldList names) :
    readFieldNames (.tuple (names.map .text)) = .ok names ∧
      readFieldNames (.set (names.map .text)) = .ok names :=
  ⟨readNames_texts h.safe [] h.nodup, readNames_texts h.safe [] h.nodup⟩

theorem checkPagination_entries {p : Pagination} (hpage : p.pageParam ≠ "")
    (hsize : p.sizeParam ≠ "") : checkPagination p.entries = ⟨p, []⟩ := by
  simp [checkPagination, check, Pagination.entries, Entries.get?_cons, readBool,
    readName_text hpage, readName_text hsize, readPositive_int]

theorem checkSorting_entries {s : Sorting} (hsort : s.sortParam ≠ "")
    (hallowed : IsFieldList s.allowed) :
    checkSorting s.entries = ⟨s, []⟩ := by
  simp [checkSorting, check, Sorting.entries, Entries.get?_cons, readBool, readName_text hsort,
    readDirection_text, readFieldNames_texts hallowed]

theorem checkSearching_entries {s : Searching} (hsearch : s.searchParam ≠ "")
    (hfields : IsFieldList s.fields) :
    checkSearching s.entries = ⟨s, []⟩ := by
  simp [checkSearching, check, Searching.entries, Entries.get?_cons, readBool,
    readName_text hsearch, readFieldNames_texts hfields]

theorem checkFiltering_entries {f : Filtering} (hfilter : f.filterParam ≠ "")
    (hfields : IsFieldList f.fields) :
    checkFiltering f.entries = ⟨f, []⟩ := by
  simp [checkFiltering, check, Filtering.entries, Entries.get?_cons, readBool,
    readName_text hfilter, readFieldNames_texts hfields]

theorem checkTotals_entries {t : Totals} (hrows : t.rowsKey ≠ "") (htotal : t.totalKey ≠ "") :
    checkTotals t.entries = ⟨t, []⟩ := by
  simp [checkTotals, check, Totals.entries, Entries.get?_cons, readBool, readName_text hrows,
    readName_text htotal]

theorem checkSection_of_known {α : Type} {name kind : String}
    {sectionDefaults entries tree : Entries Value} {body : Entries Value → Checked α} {a : α}
    (htree : tree.get? name = some (.map entries))
    (hkeys : Entries.keys entries = Entries.keys sectionDefaults) (hbody : body entries = ⟨a, []⟩) :
    checkSection name kind sectionDefaults body tree = ⟨a, []⟩ := by
  have hunknown : unknownKeys name (Entries.keys sectionDefaults) entries = [] := by
    simp [unknownKeys, hkeys]
  simp [checkSection, htree, hbody, hunknown]

/-- Sound options, given in full, are checked without a fault. -/
theorem checkAll_sections {o : Options} (h : o.IsSound) : checkAll o.sections = ⟨o, []⟩ := by
  have hunknown : unknownSections o.sections = [] := by
    simp [unknownSections, sections, Entries.keys, defaults, Entries.has, Entries.get?_cons]
  have hpagination : checkSection "pagination" "PaginationOptions" paginationDefaults
      checkPagination o.sections = ⟨o.pagination, []⟩ :=
    checkSection_of_known rfl rfl (checkPagination_entries h.pageParam h.sizeParam)
  have hsorting : checkSection "sorting" "SortingOptions" sortingDefaults checkSorting
      o.sections = ⟨o.sorting, []⟩ :=
    checkSection_of_known rfl rfl (checkSorting_entries h.sortParam h.allowed)
  have hsearching : checkSection "searching" "SearchingOptions" searchingDefaults checkSearching
      o.sections = ⟨o.searching, []⟩ :=
    checkSection_of_known rfl rfl (checkSearching_entries h.searchParam h.searched)
  have hfiltering : checkSection "filtering" "FilteringOptions" filteringDefaults checkFiltering
      o.sections = ⟨o.filtering, []⟩ :=
    checkSection_of_known rfl rfl (checkFiltering_entries h.filterParam h.filtered)
  have htotals : checkSection "meta" "MetaOptions" totalsDefaults checkTotals o.sections =
      ⟨o.totals, []⟩ :=
    checkSection_of_known rfl rfl (checkTotals_entries h.rowsKey h.totalKey)
  rw [checkAll, hunknown, hpagination, hsorting, hsearching, hfiltering, htotals]
  rfl

/-- Sound options resolve to themselves. -/
theorem resolve_sections {o : Options} (h : o.IsSound) : resolve (.map o.sections) = .ok o := by
  simp only [resolve, merge?_sections, checkAll_sections h, List.isEmpty_nil, if_true]

end TableApi.Options
