import Mathlib.Data.List.Basic
import Mathlib.Data.List.Nodup
import TableApi.Options.Resolve
import TableApi.Resource.Registry

/-! The rules of the options. Every key of every section has a rule for its values, which its reader
decides, and the defaults keep to the rules. Overrides of different sections are merged each into
the defaults of its own. -/

namespace TableApi

namespace Entries

variable {α : Type}

theorem nodup_keys_put {entries : Entries α} (h : (keys entries).Nodup) (key : String) (value : α) :
    (keys (put key value entries)).Nodup := by
  rw [keys_put]
  split
  · exact h
  · next hnew => exact h.append (List.nodup_singleton _) (List.disjoint_singleton.2 hnew)

theorem nodup_keys_putAll {entries : Entries α} (h : (keys entries).Nodup)
    (additions : Entries α) : (keys (putAll entries additions)).Nodup := by
  induction additions generalizing entries with
  | nil => exact h
  | cons addition rest ih => exact ih (nodup_keys_put h addition.1 addition.2)

theorem get?_map_values {β : Type} (f : String → α → β) (entries : Entries α) (key : String) :
    get? (entries.map fun entry => (entry.1, f entry.1 entry.2)) key =
      (get? entries key).map (f key) := by
  induction entries with
  | nil => rfl
  | cons entry rest ih =>
    rw [List.map_cons, get?_cons, get?_cons, ih]
    split
    · next heq => rw [heq, Option.map_some]
    · rfl

/-- Where keys differ from each other an entry is what its key looks up. -/
theorem get?_eq_some_iff {entries : Entries α} (h : (keys entries).Nodup) {key : String}
    {value : α} : get? entries key = some value ↔ (key, value) ∈ entries := by
  refine ⟨mem_of_get?_eq_some, fun hmem => ?_⟩
  induction entries with
  | nil => cases hmem
  | cons entry rest ih =>
    obtain ⟨k, v⟩ := entry
    obtain ⟨hk, hrest⟩ := List.nodup_cons.1 h
    rw [get?_cons]
    rcases List.mem_cons.1 hmem with heq | hmem
    · cases heq
      rw [if_pos rfl]
    · have hne : k ≠ key := by
        rintro rfl
        exact hk (List.mem_map.2 ⟨_, hmem, rfl⟩)
      rw [if_neg hne, ih hrest hmem]

end Entries

namespace Options

open Text

/-! ### Rules -/

/-- What the value of a key has to be. -/
inductive Rule where
  | truth
  | name
  | count
  | direction
  | fieldNames
  deriving DecidableEq, Repr

def paginationRules : Entries Rule := [
  ("enabled", .truth), ("page_param", .name), ("per_param", .name), ("default_per", .count),
  ("max_per", .count)]

def sortingRules : Entries Rule := [
  ("enabled", .truth), ("sort_param", .name), ("default_direction", .direction),
  ("allowed_fields", .fieldNames)]

def searchingRules : Entries Rule := [
  ("enabled", .truth), ("search_param", .name), ("searchable_fields", .fieldNames)]

def filteringRules : Entries Rule := [
  ("enabled", .truth), ("filter_param", .name), ("filterable_fields", .fieldNames)]

def totalsRules : Entries Rule := [("enabled", .truth), ("rows_key", .name), ("total_key", .name)]

def rules : Entries (Entries Rule) := [
  ("pagination", paginationRules), ("sorting", sortingRules), ("searching", searchingRules),
  ("filtering", filteringRules), ("meta", totalsRules)]

/-- A character that an identifier may start with. -/
def IsLetter (c : Char) : Prop := ('A' ≤ c ∧ c ≤ 'Z') ∨ ('a' ≤ c ∧ c ≤ 'z') ∨ c = '_'

/-- An identifier in full: a letter, followed by letters and digits. -/
def IsIdentifier (s : String) : Prop :=
  ∃ first rest, s.toList = first :: rest ∧ IsLetter first ∧
    ∀ c ∈ rest, IsLetter c ∨ ('0' ≤ c ∧ c ≤ '9')

/-- The values that a rule admits. -/
def Rule.Admits : Rule → Value → Prop
  | .truth, v => ∃ b, v = .bool b
  | .name, v => ∃ s, v = .text s ∧ s ≠ ""
  | .count, v => ∃ n : Int, v = .int n ∧ 1 ≤ n
  | .direction, v => v = .text "asc" ∨ v = .text "desc"
  | .fieldNames, v => v = .null ∨ ∃ items, Registry.listed? v = some items ∧
      ∀ item ∈ items, ∃ s, item = .text s ∧ IsIdentifier s

/-- Whether the reader of a rule takes a value. -/
def Rule.accepts : Rule → Value → Bool
  | .truth, v => (readBool v).isOk
  | .name, v => (readName v).isOk
  | .count, v => (readPositive v).isOk
  | .direction, v => (readDirection v).isOk
  | .fieldNames, v => (readFieldNames v).isOk

/-- A letter of the basic alphabet. -/
theorem isAlpha_iff (c : Char) :
    c.isAlpha = true ↔ ('A' ≤ c ∧ c ≤ 'Z') ∨ ('a' ≤ c ∧ c ≤ 'z') := by
  have hupper : c.isUpper = decide (c.val ≥ 'A'.val ∧ c.val ≤ 'Z'.val) := rfl
  have hlower : c.isLower = (decide (c.val ≥ 'a'.val) && decide (c.val ≤ 'z'.val)) := rfl
  have halpha : c.isAlpha = (c.isUpper || c.isLower) := rfl
  rw [halpha, hupper, hlower, Bool.or_eq_true, Bool.and_eq_true, decide_eq_true_iff,
    decide_eq_true_iff, decide_eq_true_iff]
  rfl

theorem isNameStart_iff (c : Char) : isNameStart c = true ↔ IsLetter c := by
  rw [isNameStart, IsLetter, Bool.or_eq_true, isAlpha_iff, decide_eq_true_iff, or_assoc]

theorem isPlainDigit_iff (c : Char) : isPlainDigit c = true ↔ '0' ≤ c ∧ c ≤ '9' := by
  rw [isPlainDigit, Bool.and_eq_true, decide_eq_true_eq, decide_eq_true_eq, Char.le_def, Char.le_def,
    UInt32.le_iff_toNat_le, UInt32.le_iff_toNat_le]
  rfl

theorem isSafeName_iff (s : String) : isSafeName s = true ↔ IsIdentifier s := by
  unfold isSafeName IsIdentifier
  cases s.toList with
  | nil => simp
  | cons first rest =>
    simp [isNameStart_iff, isPlainDigit_iff]

theorem isOk_readNames (seen : List String) (items : List Value) :
    (readNames seen items).isOk = true ↔ ∀ item ∈ items, ∃ s, item = .text s ∧ IsIdentifier s := by
  induction items generalizing seen with
  | nil => simp [readNames, Except.isOk, Except.toBool]
  | cons item rest ih =>
    rw [List.forall_mem_cons]
    cases item with
    | text s =>
      rw [readNames]
      by_cases hsafe : isSafeName s = true
      · simp [hsafe, ih, (isSafeName_iff s).1 hsafe]
      · simp [hsafe, Except.isOk, Except.toBool, mt (isSafeName_iff s).2 hsafe]
    | _ => simp [readNames, Except.isOk, Except.toBool]

theorem Rule.accepts_iff (rule : Rule) (v : Value) : rule.accepts v = true ↔ rule.Admits v := by
  cases rule with
  | truth => cases v <;> simp [accepts, Admits, readBool, Except.isOk, Except.toBool]
  | name =>
    cases v with
    | text s =>
      by_cases hs : s = "" <;> simp [accepts, Admits, readName, Except.isOk, Except.toBool, hs]
    | _ => simp [accepts, Admits, readName, Except.isOk, Except.toBool]
  | count =>
    cases v with
    | int n =>
      by_cases hn : 1 ≤ n <;> simp [accepts, Admits, readPositive, Except.isOk, Except.toBool, hn]
    | _ => simp [accepts, Admits, readPositive, Except.isOk, Except.toBool]
  | direction =>
    cases v with
    | text s =>
      by_cases hasc : s = "asc"
      · simp [accepts, Admits, readDirection, Except.isOk, Except.toBool, hasc]
      · by_cases hdesc : s = "desc" <;>
          simp [accepts, Admits, readDirection, Except.isOk, Except.toBool, hasc, hdesc]
    | _ => simp [accepts, Admits, readDirection, Except.isOk, Except.toBool]
  | fieldNames =>
    cases v with
    | list | tuple | set | map =>
      simp [accepts, Admits, readFieldNames, Registry.listed?, isOk_readNames]
    | _ => simp [accepts, Admits, readFieldNames, Registry.listed?, Except.isOk, Except.toBool]

/-! ### Defaults -/

theorem nodup_keys_of_rules {name : String} {keys : Entries Rule}
    (h : rules.get? name = some keys) : (Entries.keys keys).Nodup := by
  have hall : ∀ rule ∈ rules, (Entries.keys rule.2).Nodup := by decide
  exact hall (name, keys) (Entries.mem_of_get?_eq_some h)

/-- Whether a section is a mapping, without repeated keys, of values that the rules take. -/
def keepsTo (keys : Entries Rule) : Option Value → Bool
  | some (.map entries) => decide (Entries.keys entries).Nodup &&
      entries.all fun entry => (keys.get? entry.1).any fun r => r.accepts entry.2
  | _ => false

/-- Every section has defaults, all of which keep to the rules of their keys. -/
theorem exists_defaults {name : String} {keys : Entries Rule} (h : rules.get? name = some keys) :
    ∃ entries, defaults.get? name = some (.map entries) ∧ (Entries.keys entries).Nodup ∧
      ∀ key v, Entries.get? entries key = some v →
        ∃ rule, keys.get? key = some rule ∧ rule.Admits v := by
  have hall : ∀ rule ∈ rules, keepsTo rule.2 (defaults.get? rule.1) = true := by
    decide +kernel
  have hrule := hall (name, keys) (Entries.mem_of_get?_eq_some h)
  unfold keepsTo at hrule
  split at hrule
  · next entries hentries =>
    rw [Bool.and_eq_true, decide_eq_true_eq, List.all_eq_true] at hrule
    refine ⟨entries, hentries, hrule.1, fun key v hv => ?_⟩
    have hany := hrule.2 (key, v) (Entries.mem_of_get?_eq_some hv)
    obtain ⟨r, hr, haccepts⟩ := (Option.any_eq_true _ _).1 hany
    exact ⟨r, hr, (r.accepts_iff v).1 haccepts⟩
  · cases hrule

theorem has_defaults (name : String) : defaults.has name = rules.has name := by
  have hkeys : Entries.keys defaults = Entries.keys rules := rfl
  rw [Bool.eq_iff_iff, Entries.has, Entries.has, Option.isSome_iff_ne_none,
    Option.isSome_iff_ne_none, Ne, Ne, Entries.get?_eq_none_iff, Entries.get?_eq_none_iff, hkeys]

theorem get?_defaults_eq_none {name : String} (h : rules.get? name = none) :
    defaults.get? name = none := by
  have hhas := has_defaults name
  rw [Entries.has, Entries.has, h] at hhas
  simpa using hhas

/-! ### Merging -/

/-- A section with an override: a mapping is merged into it, anything else replaces it. -/
def overridden (current? : Option Value) (override : Value) : Value :=
  match current?, override with
  | some (.map current), .map additions => .map (Entries.putAll current additions)
  | _, _ => override

theorem mergeSection_eq (sections : Entries Value) (name : String) (override : Value) :
    mergeSection sections name override =
      sections.put name (overridden (sections.get? name) override) := by
  unfold mergeSection overridden
  split <;> simp_all

/-- Overrides of different sections are merged each into what was there at first. -/
theorem foldl_mergeSection {sections : Entries Value} (h : (Entries.keys sections).Nodup)
    (tree : Entries Value) :
    sections.foldl (fun merged (name, override) => mergeSection merged name override) tree =
      Entries.putAll tree
        (sections.map fun entry => (entry.1, overridden (tree.get? entry.1) entry.2)) := by
  induction sections generalizing tree with
  | nil => rfl
  | cons entry rest ih =>
    obtain ⟨name, override⟩ := entry
    obtain ⟨hname, hrest⟩ := List.nodup_cons.1 h
    have hothers : (rest.map fun other => (other.1, overridden
        ((tree.put name (overridden (tree.get? name) override)).get? other.1) other.2)) =
          rest.map fun other => (other.1, overridden (tree.get? other.1) other.2) := by
      refine List.map_congr_left fun other hother => ?_
      have hne : name ≠ other.1 := by
        rintro rfl
        exact hname (List.mem_map.2 ⟨other, hother, rfl⟩)
      rw [Entries.get?_put_of_ne hne]
    rw [List.foldl_cons]
    change List.foldl _ (mergeSection tree name override) rest = _
    rw [mergeSection_eq, ih hrest, hothers]
    rfl

section Merged

variable {sections tree : Entries Value} (hsections : (Entries.keys sections).Nodup)
  (hmerged : merge? (.map sections) = some tree)
include hsections hmerged

theorem get?_of_merge? (name : String) : tree.get? name =
    ((Entries.get? sections name).map (overridden (defaults.get? name))).or
      (defaults.get? name) := by
  have htree : Entries.putAll defaults (sections.map fun entry =>
      (entry.1, overridden (defaults.get? entry.1) entry.2)) = tree := by
    rw [← foldl_mergeSection hsections]
    exact Option.some.inj hmerged
  have hkeys : Entries.keys (sections.map fun entry =>
      (entry.1, overridden (defaults.get? entry.1) entry.2)) = Entries.keys sections := by
    simp [Entries.keys, Function.comp_def]
  rw [← htree, Entries.get?_putAll (by rwa [hkeys]),
    Entries.get?_map_values fun name => overridden (defaults.get? name)]

theorem nodup_keys_of_merge? : (Entries.keys tree).Nodup := by
  rw [← Option.some.inj hmerged, foldl_mergeSection hsections]
  exact Entries.nodup_keys_putAll (by decide) _

end Merged

end Options

end TableApi
