import TableApi.Options.Basic

/-! The default options as a tree of values, and overrides merged into it, one level deep. -/

namespace TableApi.Options

def paginationDefaults : Entries Value := [
  ("enabled", .bool false), ("page_param", .text "page"), ("per_param", .text "size"),
  ("default_per", .int 10), ("max_per", .int 100)]

def sortingDefaults : Entries Value := [
  ("enabled", .bool false), ("sort_param", .text "sort"), ("default_direction", .text "asc"),
  ("allowed_fields", .list [])]

def searchingDefaults : Entries Value := [
  ("enabled", .bool false), ("search_param", .text "q"), ("searchable_fields", .list [])]

def filteringDefaults : Entries Value := [
  ("enabled", .bool false), ("filter_param", .text "filter"), ("filterable_fields", .list [])]

def totalsDefaults : Entries Value := [
  ("enabled", .bool true), ("rows_key", .text "rows"), ("total_key", .text "total")]

/-- The sections of the default options. -/
def defaults : Entries Value := [
  ("pagination", .map paginationDefaults), ("sorting", .map sortingDefaults),
  ("searching", .map searchingDefaults), ("filtering", .map filteringDefaults),
  ("meta", .map totalsDefaults)]

/-- Merge one override: a mapping goes key by key into the section of its name, anything else
replaces the section. -/
def mergeSection (sections : Entries Value) (name : String) (override : Value) : Entries Value :=
  match sections.get? name, override with
  | some (.map current), .map additions =>
    sections.put name (.map (Entries.putAll current additions))
  | _, _ => sections.put name override

/-- The defaults with overrides merged into them, unless the overrides are no mapping. -/
def merge? (overrides : Value) : Option (Entries Value) :=
  match overrides with
  | .null => some defaults
  | .map sections =>
    some (sections.foldl (fun merged (name, override) => mergeSection merged name override)
      defaults)
  | _ => none

end TableApi.Options
