import Mathlib.Data.List.Basic
import TableApi.Options.Resolve

/-! What resolving guarantees of the field names in options: they are plain identifiers. An unsafe
name is a fault, and options with a fault are refused. -/

namespace TableApi.Options

/-! ### Safe names -/

/-- The names that are read are safe, when those that were seen before are. -/
theorem isSafeName_of_readNames {items : List Value} {seen names : List String}
    (h : readNames seen items = .ok names) (hseen : ∀ s ∈ seen, isSafeName s = true) :
    ∀ s ∈ names, isSafeName s = true := by
  induction items generalizing seen with
  | nil =>
    cases h
    exact hseen
  | cons item rest ih =>
    unfold readNames at h
    split at h
    · next hnil => cases hnil
    · next s _ hcons =>
      cases hcons
      split at h
      · next hsafe =>
        refine ih h fun t ht => ?_
        split at ht
        · exact hseen t ht
        · rcases List.mem_append.1 ht with hold | hnew
          · exact hseen t hold
          · rwa [List.mem_singleton.1 hnew]
      · cases h
    · cases h

theorem isSafeName_of_readFieldNames {v : Value} {names : List String}
    (h : readFieldNames v = .ok names) : ∀ s ∈ names, isSafeName s = true := by
  unfold readFieldNames at h
  split at h
  · cases h
    exact nofun
  · exact isSafeName_of_readNames h nofun
  · exact isSafeName_of_readNames h nofun
  · exact isSafeName_of_readNames h nofun
  · exact isSafeName_of_readNames h nofun
  · cases h

/-- What holds of all that is read, and of the default, holds of a checked value. -/
theorem holds_check {α : Type} {P : α → Prop} {read : Value → Except Problem α} {fallback : α}
    {name key : String} {e : Entries Value} (hfallback : P fallback)
    (hread : ∀ v a, read v = .ok a → P a) : P (check read fallback name e key).value := by
  unfold check
  split
  · exact hfallback
  · split
    · next a ha => exact hread _ a ha
    · exact hfallback

theorem isSafeName_of_check {name key : String} {e : Entries Value} :
    ∀ s ∈ (check readFieldNames [] name e key).value, isSafeName s = true :=
  holds_check (P := fun names => ∀ s ∈ names, isSafeName s = true) nofun
    fun _ _ hread => isSafeName_of_readFieldNames hread

/-! ### Resolved options -/

theorem exists_value_checkSection {α : Type} (name kind : String) (sectionDefaults : Entries Value)
    (body : Entries Value → Checked α) (sections : Entries Value) :
    ∃ e, (checkSection name kind sectionDefaults body sections).value = (body e).value := by
  unfold checkSection
  split
  · exact ⟨_, rfl⟩
  · exact ⟨_, rfl⟩

theorem exists_checkAll_of_resolve {overrides : Value} {o : Options}
    (h : resolve overrides = .ok o) : ∃ sections, o = (checkAll sections).value := by
  unfold resolve at h
  split at h
  · cases h
  · simp only at h
    split at h
    · exact ⟨_, (Except.ok.inj h).symm⟩
    · cases h

/-- Resolved options are what the checks make of some entries of the five sections. -/
theorem exists_checked_of_resolve {overrides : Value} {o : Options}
    (h : resolve overrides = .ok o) : ∃ e₁ e₂ e₃ e₄ e₅, o = ⟨(checkPagination e₁).value,
      (checkSorting e₂).value, (checkSearching e₃).value, (checkFiltering e₄).value,
      (checkTotals e₅).value⟩ := by
  obtain ⟨sections, rfl⟩ := exists_checkAll_of_resolve h
  obtain ⟨e₁, hpagination⟩ := exists_value_checkSection "pagination" "PaginationOptions"
    paginationDefaults checkPagination sections
  obtain ⟨e₂, hsorting⟩ := exists_value_checkSection "sorting" "SortingOptions" sortingDefaults
    checkSorting sections
  obtain ⟨e₃, hsearching⟩ := exists_value_checkSection "searching" "SearchingOptions"
    searchingDefaults checkSearching sections
  obtain ⟨e₄, hfiltering⟩ := exists_value_checkSection "filtering" "FilteringOptions"
    filteringDefaults checkFiltering sections
  obtain ⟨e₅, htotals⟩ := exists_value_checkSection "meta" "MetaOptions" totalsDefaults checkTotals
    sections
  refine ⟨e₁, e₂, e₃, e₄, e₅, ?_⟩
  simp only [checkAll, hpagination, hsorting, hsearching, hfiltering, htotals]

/-- All fields that resolved options name are safe. -/
theorem isSafeName_of_resolve {overrides : Value} {o : Options} (h : resolve overrides = .ok o) :
    ∀ field ∈ o.fieldNames, isSafeName field = true := by
  obtain ⟨_, e₂, e₃, e₄, _, rfl⟩ := exists_checked_of_resolve h
  intro field hfield
  simp only [fieldNames, List.mem_eraseDups, List.mem_append] at hfield
  rcases hfield with (h | h) | h
  · exact isSafeName_of_check field h
  · exact isSafeName_of_check field h
  · exact isSafeName_of_check field h

end TableApi.Options
