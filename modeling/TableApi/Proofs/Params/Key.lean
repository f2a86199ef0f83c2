import Mathlib.Data.List.TakeWhile
import TableApi.Params.Key
import TableApi.Proofs.Text.Ends

/-! Bracketed keys as printed paths. A key is read as a path exactly when it is that path printed,
with white space around it; the path has a root and at most three segments, of which only the last
may be empty. -/

namespace TableApi.Params

open TableApi.Text

def Unbracketed (s : String) : Prop := ∀ c ∈ s.toList, isPlain c = true

/-- A text that can be a key of a tree: not empty and without brackets. -/
def IsSegment (s : String) : Prop := s ≠ "" ∧ Unbracketed s

instance : DecidablePred Unbracketed := fun s => List.decidableBAll (fun c => isPlain c = true) s.toList

instance : DecidablePred IsSegment := fun _ => inferInstanceAs (Decidable (_ ∧ _))

/-- The key that denotes a path: its root, and behind it the other segments in brackets. -/
def printKey : List String → String
  | [] => ""
  | root :: segments => root ++ String.join (segments.map fun s => "[" ++ s ++ "]")

def bracketed (segments : List (List Char)) : List Char :=
  segments.flatMap fun s => '[' :: (s ++ [']'])

theorem bracketed_cons (s : List Char) (rest : List (List Char)) :
    bracketed (s :: rest) = '[' :: (s ++ ']' :: bracketed rest) := by
  simp [bracketed]

theorem toList_printKey (root : String) (segments : List String) :
    (printKey (root :: segments)).toList = root.toList ++ bracketed (segments.map String.toList) := by
  have hsegment : ∀ s : String, ("[" ++ s ++ "]").toList = '[' :: (s.toList ++ [']']) := by
    intro s
    simp [String.toList_append]
  rw [printKey, String.toList_append, String.toList_join, List.flatMap_map, bracketed,
    List.flatMap_map]
  simp only [hsegment]

theorem map_ofList_map_toList (texts : List String) :
    (texts.map String.toList).map String.ofList = texts := by
  have hid : String.ofList ∘ String.toList = id := funext fun _ => String.ofList_toList
  rw [List.map_map, hid, List.map_id]

theorem toList_printKey_ofList (root : List Char) (segments : List (List Char)) :
    (printKey ((root :: segments).map String.ofList)).toList = root ++ bracketed segments := by
  have hid : String.toList ∘ String.ofList = id := funext fun _ => String.toList_ofList
  rw [List.map_cons, toList_printKey, List.map_map, String.toList_ofList, hid, List.map_id]

/-! ### Segments -/

theorem takeWhile_isPlain_append {s : List Char} (h : ∀ c ∈ s, isPlain c = true) (rest : List Char) :
    (s ++ ']' :: rest).takeWhile isPlain = s ∧ (s ++ ']' :: rest).dropWhile isPlain = ']' :: rest := by
  rw [List.takeWhile_append_of_pos h, List.dropWhile_append_of_pos h]
  have hbracket : isPlain ']' = false := by decide
  simp [hbracket]

/-- A reader of plain characters stops at the end of the root. -/
theorem takeWhile_isPlain_append_bracketed {root : List Char}
    (h : ∀ c ∈ root, isPlain c = true) (segments : List (List Char)) :
    (root ++ bracketed segments).takeWhile isPlain = root ∧
      (root ++ bracketed segments).dropWhile isPlain = bracketed segments := by
  rw [List.takeWhile_append_of_pos h, List.dropWhile_append_of_pos h]
  have hbracket : isPlain '[' = false := by decide
  cases segments <;> simp [bracketed, hbracket]

theorem segments?_bracketed {segments : List (List Char)}
    (h : ∀ s ∈ segments, ∀ c ∈ s, isPlain c = true) :
    segments? (bracketed segments) = some segments := by
  induction segments with
  | nil => rw [bracketed, List.flatMap_nil, segments?]
  | cons s rest ih =>
    obtain ⟨hs, hrest⟩ := List.forall_mem_cons.1 h
    obtain ⟨htake, hdrop⟩ := takeWhile_isPlain_append hs (bracketed rest)
    rw [bracketed_cons, segments?]
    split
    · next more heq =>
      rw [hdrop] at heq
      cases heq
      rw [ih hrest, htake, Option.map_some]
    · next hnone => exact absurd hdrop (hnone _)

/-- By induction along the reader, which takes one segment at a time. -/
theorem of_segments? {cs : List Char} {segments : List (List Char)}
    (h : segments? cs = some segments) :
    cs = bracketed segments ∧ ∀ s ∈ segments, ∀ c ∈ s, isPlain c = true := by
  induction cs using segments?.induct generalizing segments with
  | case1 =>
    rw [segments?] at h
    cases h
    exact ⟨rfl, nofun⟩
  | case2 rest more hdrop ih =>
    rw [segments?] at h
    split at h
    · next more' heq =>
      rw [hdrop] at heq
      cases heq
      obtain ⟨others, hothers, rfl⟩ := Option.map_eq_some_iff.1 h
      obtain ⟨hmore, hplain⟩ := ih hothers
      refine ⟨?_, List.forall_mem_cons.2 ⟨fun c hc => List.mem_takeWhile_imp hc, hplain⟩⟩
      have hrest := List.takeWhile_append_dropWhile (p := isPlain) (l := rest)
      rw [hdrop] at hrest
      rw [bracketed_cons, ← hmore, hrest]
    · next hnone => exact absurd hdrop (hnone _)
  | case3 rest hnone =>
    rw [segments?] at h
    split at h
    · next more heq => exact absurd heq (hnone more)
    · cases h
  | case4 cs hnil hopen =>
    unfold segments? at h
    split at h
    · exact absurd rfl hnil
    · exact (hopen _ rfl).elim
    · cases h

/-! ### Keys -/

/-- A root and segments that a key can have. -/
structure IsPath (root : String) (segments : List String) : Prop where
  root : IsSegment root
  unbracketed : ∀ s ∈ segments, Unbracketed s
  inner : "" ∉ segments.dropLast
  length : segments.length ≤ maxDepth

theorem IsPath.isPlain_chars {root : String} {segments : List String} (h : IsPath root segments) :
    ∀ s ∈ segments.map String.toList, ∀ c ∈ s, isPlain c = true :=
  List.forall_mem_map.2 h.unbracketed

/-- Characters that were read as a path. -/
theorem isPath_ofList {root : List Char} {segments : List (List Char)} (hne : root ≠ [])
    (hroot : ∀ c ∈ root, isPlain c = true) (hplain : ∀ s ∈ segments, ∀ c ∈ s, isPlain c = true)
    (hinner : [] ∉ segments.dropLast) (hlength : segments.length ≤ maxDepth) :
    IsPath (String.ofList root) (segments.map String.ofList) where
  root := by
    refine ⟨by simpa using hne, ?_⟩
    intro c hc
    rw [String.toList_ofList] at hc
    exact hroot c hc
  unbracketed s hs c hc := by
    obtain ⟨cs, hcs, rfl⟩ := List.mem_map.1 hs
    rw [String.toList_ofList] at hc
    exact hplain cs hcs c hc
  inner := by
    rw [← List.map_dropLast]
    intro hempty
    obtain ⟨cs, hcs, hnil⟩ := List.mem_map.1 hempty
    obtain rfl : cs = [] := by simpa using hnil
    exact hinner hcs
  length := by rwa [List.length_map]

/-- A key that is read as a path is the path printed, with white space around it. -/
theorem of_splitKey? {key : String} {path : List String} (h : splitKey? key = some path) :
    ∃ root segments, path = root :: segments ∧ IsPath root segments ∧
      stripChars key.toList = (printKey path).toList := by
  simp only [splitKey?] at h
  split at h
  · cases h
  · next hroot =>
    split at h
    · cases h
    · next segments hsegments =>
      split at h
      · cases h
      · next hgood =>
        obtain ⟨hlength, hinner⟩ := not_or.1 hgood
        obtain ⟨hrest, hplain⟩ := of_segments? hsegments
        cases h
        refine ⟨_, _, rfl, isPath_ofList (by simpa using hroot)
          (fun c hc => List.mem_takeWhile_imp hc) hplain (by simpa using hinner)
          (Nat.le_of_not_lt hlength), ?_⟩
        rw [toList_printKey_ofList, ← hrest, List.takeWhile_append_dropWhile]

/-- A printed path is read back from a key with white space around it. -/
theorem splitKey?_of_isPath {key root : String} {segments : List String}
    (hpath : IsPath root segments)
    (hkey : stripChars key.toList = (printKey (root :: segments)).toList) :
    splitKey? key = some (root :: segments) := by
  rw [toList_printKey] at hkey
  obtain ⟨htake, hdrop⟩ :=
    takeWhile_isPlain_append_bracketed hpath.root.2 (segments.map String.toList)
  have hsegments := segments?_bracketed hpath.isPlain_chars
  have hroot : root.toList.isEmpty = false := by simpa using hpath.root.1
  have hgood : ¬ (maxDepth < (segments.map String.toList).length ∨
      (segments.map String.toList).dropLast.any List.isEmpty = true) := by
    have hlength := hpath.length
    have hinner := hpath.inner
    simpa [← List.map_dropLast] using ⟨hlength, hinner⟩
  simp only [splitKey?, hkey, htake, hdrop, hsegments, hroot, if_neg hgood, Bool.false_eq_true,
    if_false, List.map_cons, map_ofList_map_toList, String.ofList_toList]

/-- Keys are read as the paths whose print they are, white space around them aside. -/
theorem splitKey?_eq_some_iff {key : String} {path : List String} :
    splitKey? key = some path ↔ ∃ root segments, path = root :: segments ∧ IsPath root segments ∧
      stripChars key.toList = (printKey path).toList := by
  constructor
  · exact of_splitKey?
  · rintro ⟨root, segments, rfl, hpath, hkey⟩
    exact splitKey?_of_isPath hpath hkey

end TableApi.Params
