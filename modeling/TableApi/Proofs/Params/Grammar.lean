import Mathlib.Computability.Language
import TableApi.Proofs.Params.Key

/-! The grammar of keys. A text names a path when it is the path printed, and no text names two
paths. A key is read as the path that it names without the white space around it. The same path is
found in two passes, by matching the whole key with a pattern and then scanning what is behind the
root for segments. -/

namespace TableApi.Params

open TableApi.Text
open scoped Computability

/-- The grammar of keys. A text names a path when it consists of a root, which is not empty, and of
at most three segments in brackets behind it, of which only the last may be empty. No bracket is in
the root or in a segment. -/
inductive Names : (text : String) → (path : List String) → Prop where
  | path {root : String} {segments : List String} (hroot : root ≠ "")
      (hplain : ∀ part ∈ root :: segments, '[' ∉ part.toList ∧ ']' ∉ part.toList)
      (hlength : segments.length ≤ 3) (hinner : "" ∉ segments.dropLast) :
      Names (root ++ String.join (segments.map fun s => "[" ++ s ++ "]")) (root :: segments)

theorem forall_isPlain_iff {cs : List Char} :
    (∀ c ∈ cs, isPlain c = true) ↔ '[' ∉ cs ∧ ']' ∉ cs := by
  have hplain : ∀ c, isPlain c = true ↔ c ≠ '[' ∧ c ≠ ']' := by simp [isPlain]
  constructor
  · intro h
    exact ⟨fun hc => ((hplain _).1 (h _ hc)).1 rfl, fun hc => ((hplain _).1 (h _ hc)).2 rfl⟩
  · rintro ⟨hopen, hclose⟩ c hc
    exact (hplain c).2 ⟨fun h => hopen (h ▸ hc), fun h => hclose (h ▸ hc)⟩

theorem names_iff {text : String} {path : List String} :
    Names text path ↔
      ∃ root segments, path = root :: segments ∧ IsPath root segments ∧ text = printKey path := by
  constructor
  · rintro ⟨hroot, hplain, hlength, hinner⟩
    obtain ⟨hfirst, hrest⟩ := List.forall_mem_cons.1 hplain
    exact ⟨_, _, rfl, ⟨⟨hroot, forall_isPlain_iff.2 hfirst⟩,
      fun s hs => forall_isPlain_iff.2 (hrest s hs), hinner, hlength⟩, rfl⟩
  · rintro ⟨root, segments, rfl, hpath, rfl⟩
    refine .path hpath.root.1 (List.forall_mem_cons.2 ⟨?_, ?_⟩) hpath.length hpath.inner
    · exact forall_isPlain_iff.1 hpath.root.2
    · exact fun s hs => forall_isPlain_iff.1 (hpath.unbracketed s hs)

theorem Names.eq_printKey {text : String} {path : List String} (h : Names text path) :
    text = printKey path := by
  obtain ⟨-, -, -, -, hprint⟩ := names_iff.1 h
  exact hprint

theorem splitKey?_eq_some_iff_names {key : String} {path : List String} :
    splitKey? key = some path ↔ Names (strip key) path := by
  have hchars : strip key = printKey path ↔ stripChars key.toList = (printKey path).toList := by
    rw [← String.toList_inj, strip, String.toList_ofList]
  rw [splitKey?_eq_some_iff, names_iff, hchars]

theorem splitKey?_eq_none_iff_names {key : String} :
    splitKey? key = none ↔ ∀ path, ¬ Names (strip key) path := by
  simp only [Option.eq_none_iff_forall_ne_some, ne_eq, splitKey?_eq_some_iff_names]

/-! ### One path for a text -/

/-- Segments are told apart by their brackets, since each of them is read back. -/
theorem eq_of_bracketed_eq {segments others : List (List Char)}
    (hsegments : ∀ s ∈ segments, ∀ c ∈ s, isPlain c = true)
    (hothers : ∀ s ∈ others, ∀ c ∈ s, isPlain c = true)
    (h : bracketed segments = bracketed others) : segments = others := by
  have hread := segments?_bracketed hsegments
  rw [h, segments?_bracketed hothers] at hread
  exact (Option.some.inj hread).symm

/-- The root of a path ends at the first bracket of its print, whatever is behind it. -/
theorem Names.unique {text : String} {path other : List String} (h : Names text path)
    (hother : Names text other) : path = other := by
  obtain ⟨root, segments, rfl, hpath, rfl⟩ := names_iff.1 h
  obtain ⟨root', segments', rfl, hpath', hprint⟩ := names_iff.1 hother
  have hchars := congrArg String.toList hprint
  rw [toList_printKey, toList_printKey] at hchars
  obtain ⟨htake, hdrop⟩ :=
    takeWhile_isPlain_append_bracketed hpath.root.2 (segments.map String.toList)
  obtain ⟨htake', hdrop'⟩ :=
    takeWhile_isPlain_append_bracketed hpath'.root.2 (segments'.map String.toList)
  have hroot : root.toList = root'.toList := by rw [← htake, hchars, htake']
  have hbracketed : bracketed (segments.map String.toList) =
      bracketed (segments'.map String.toList) := by rw [← hdrop, hchars, hdrop']
  have hsegments := eq_of_bracketed_eq hpath.isPlain_chars hpath'.isPlain_chars hbracketed
  rw [String.toList_injective hroot, ← map_ofList_map_toList segments, hsegments,
    map_ofList_map_toList]

/-! ### Matching and scanning -/

def plainTexts : Language Char := {cs | '[' ∉ cs ∧ ']' ∉ cs}

def segmentTexts : Language Char := {['[']} * plainTexts * {[']']}

/-- The pattern of keys matches characters as a whole: a root that is not empty, and any number of
segments in brackets behind it. -/
structure IsMatch (cs root rest : List Char) : Prop where
  whole : cs = root ++ rest
  root_ne : root ≠ []
  root_mem : root ∈ plainTexts
  rest_mem : rest ∈ segmentTexts∗

/-- The segments that are found from left to right, whatever stands between them. -/
def scan (cs : List Char) : List (List Char) :=
  match cs with
  | [] => []
  | '[' :: rest =>
    match _h : rest.dropWhile isPlain with
    | ']' :: more => rest.takeWhile isPlain :: scan more
    | _ => scan rest
  | _ :: rest => scan rest
termination_by cs.length
decreasing_by
  · have hle : (rest.dropWhile isPlain).length ≤ rest.length :=
      (List.dropWhile_sublist _).length_le
    simp_all
    omega
  all_goals simp

/-- A path is found by matching a text as a whole and scanning what is behind the root. It has at
most three segments, of which only the last may be empty. -/
def Scans (text : String) (path : List String) : Prop :=
  ∃ root rest, IsMatch text.toList root rest ∧ (scan rest).length ≤ 3 ∧
    [] ∉ (scan rest).dropLast ∧ path = (root :: scan rest).map String.ofList

theorem mem_plainTexts_iff {cs : List Char} : cs ∈ plainTexts ↔ ∀ c ∈ cs, isPlain c = true :=
  forall_isPlain_iff.symm

theorem mem_segmentTexts_iff {cs : List Char} :
    cs ∈ segmentTexts ↔ ∃ s, (∀ c ∈ s, isPlain c = true) ∧ cs = '[' :: (s ++ [']']) := by
  simp only [segmentTexts, Language.mem_mul, ← mem_plainTexts_iff]
  constructor
  · rintro ⟨_, ⟨_, rfl, s, hs, rfl⟩, _, rfl, rfl⟩
    exact ⟨s, hs, rfl⟩
  · rintro ⟨s, hs, rfl⟩
    exact ⟨_, ⟨_, rfl, s, hs, rfl⟩, _, rfl, rfl⟩

/-- By induction on the number of segments. -/
theorem mem_kstar_segmentTexts_iff {cs : List Char} :
    cs ∈ segmentTexts∗ ↔
      ∃ segments, (∀ s ∈ segments, ∀ c ∈ s, isPlain c = true) ∧ cs = bracketed segments := by
  rw [Language.mem_kstar]
  constructor
  · rintro ⟨pieces, rfl, hpieces⟩
    induction pieces with
    | nil => exact ⟨[], nofun, rfl⟩
    | cons piece pieces ih =>
      obtain ⟨hpiece, hrest⟩ := List.forall_mem_cons.1 hpieces
      obtain ⟨s, hs, rfl⟩ := mem_segmentTexts_iff.1 hpiece
      obtain ⟨segments, hsegments, hflatten⟩ := ih hrest
      refine ⟨s :: segments, List.forall_mem_cons.2 ⟨hs, hsegments⟩, ?_⟩
      rw [List.flatten_cons, hflatten, bracketed, bracketed, List.flatMap_cons]
  · rintro ⟨segments, hsegments, rfl⟩
    refine ⟨segments.map fun s => '[' :: (s ++ [']']), List.flatMap_def, ?_⟩
    exact List.forall_mem_map.2 fun s hs => mem_segmentTexts_iff.2 ⟨s, hsegments s hs, rfl⟩

theorem scan_bracketed {segments : List (List Char)}
    (h : ∀ s ∈ segments, ∀ c ∈ s, isPlain c = true) : scan (bracketed segments) = segments := by
  induction segments with
  | nil => rw [bracketed, List.flatMap_nil, scan]
  | cons s rest ih =>
    obtain ⟨hs, hrest⟩ := List.forall_mem_cons.1 h
    obtain ⟨htake, hdrop⟩ := takeWhile_isPlain_append hs (bracketed rest)
    rw [bracketed_cons, scan]
    split
    · next more heq =>
      rw [hdrop] at heq
      cases heq
      rw [ih hrest, htake]
    · next hnone => exact absurd hdrop (hnone _)

/-- On its own a scan passes over what no key has. -/
example : scan "a[b]c[d[]".toList = [['b'], []] := by decide +kernel

/-- Matching and scanning find the path that a text names. -/
theorem scans_iff_names {text : String} {path : List String} :
    Scans text path ↔ Names text path := by
  rw [names_iff]
  constructor
  · rintro ⟨root, rest, hmatch, hlength, hinner, rfl⟩
    obtain ⟨segments, hplain, rfl⟩ := mem_kstar_segmentTexts_iff.1 hmatch.rest_mem
    rw [scan_bracketed hplain] at hlength hinner ⊢
    refine ⟨_, _, rfl, isPath_ofList hmatch.root_ne (mem_plainTexts_iff.1 hmatch.root_mem) hplain
      hinner hlength, String.toList_injective ?_⟩
    rw [toList_printKey_ofList, hmatch.whole]
  · rintro ⟨root, segments, rfl, hpath, rfl⟩
    have hscan := scan_bracketed hpath.isPlain_chars
    refine ⟨root.toList, bracketed (segments.map String.toList), ⟨toList_printKey _ _, ?_, ?_, ?_⟩,
      ?_, ?_, ?_⟩
    · exact mt String.toList_eq_nil_iff.1 hpath.root.1
    · exact mem_plainTexts_iff.2 hpath.root.2
    · exact mem_kstar_segmentTexts_iff.2 ⟨_, hpath.isPlain_chars, rfl⟩
    · rw [hscan, List.length_map]
      exact hpath.length
    · have hinner := hpath.inner
      simpa [hscan, ← List.map_dropLast] using hinner
    · rw [hscan]
      exact (map_ofList_map_toList (root :: segments)).symm

/-! ### Reading -/

/-- A key is read as the one path that it names, white space around it aside, and that path is
printed as the key. A key that names no path is not read. Reading in one pass finds what matching
and scanning find. -/
theorem keys_read_by_grammar (key : String) :
    (∀ path, splitKey? key = some path ↔ Names (strip key) path) ∧
    (∀ path other, Names (strip key) path → Names (strip key) other → path = other) ∧
    (∀ path, splitKey? key = some path → printKey path = strip key) ∧
    (splitKey? key = none ↔ ∀ path, ¬ Names (strip key) path) ∧
    ∀ path, splitKey? key = some path ↔ Scans (strip key) path := by
  refine ⟨fun path => splitKey?_eq_some_iff_names, fun path other => Names.unique, ?_,
    splitKey?_eq_none_iff_names, ?_⟩
  · intro path hsplit
    exact (splitKey?_eq_some_iff_names.1 hsplit).eq_printKey.symm
  · intro path
    rw [splitKey?_eq_some_iff_names, scans_iff_names]

/-- A key with a line break in a segment, a blank segment and white space around it. -/
def oddKey : String := "\t filter [a\nb][ ][] \n"

/-- A text between segments or a bracket in one leaves a key without a path, though a scan finds
segments in it. -/
theorem oddKey_read_by_grammar :
    (splitKey? oddKey = some ["filter ", "a\nb", " ", ""] ∧
      Names (strip oddKey) ["filter ", "a\nb", " ", ""] ∧
      printKey ["filter ", "a\nb", " ", ""] = strip oddKey) ∧
    ∀ key ∈ ["filter[a]b[c]", "filter[a[b]]"], splitKey? key = none ∧
      (∀ path, ¬ Names (strip key) path) ∧ ∀ path, ¬ Scans (strip key) path := by
  have hread : splitKey? oddKey = some ["filter ", "a\nb", " ", ""] := by decide +kernel
  have hrefused : ∀ key ∈ ["filter[a]b[c]", "filter[a[b]]"], splitKey? key = none := by
    decide +kernel
  obtain ⟨hnames, -, hprints, -, -⟩ := keys_read_by_grammar oddKey
  refine ⟨⟨hread, (hnames _).1 hread, hprints _ hread⟩, fun key hkey => ?_⟩
  obtain ⟨-, -, -, hnone, hscans⟩ := keys_read_by_grammar key
  refine ⟨hrefused key hkey, hnone.1 (hrefused key hkey), fun path hscan => ?_⟩
  have hsome := (hscans path).2 hscan
  rw [hrefused key hkey] at hsome
  cases hsome

end TableApi.Params
