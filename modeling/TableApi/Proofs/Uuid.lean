import TableApi.Proofs.Number.Integer
import TableApi.Uuid

/-! Reading identifiers back, from their plain digits and from the digits in groups. A text of
hexadecimal digits and hyphens has no label and no brace, so only the hyphens are left out. -/

namespace TableApi.Uuid

open TableApi.Text TableApi.Number

theorem without_of_notMem {first : Char} {pattern cs : List Char} (h : first ∉ cs) :
    without (first :: pattern) 0 cs = cs := by
  induction cs with
  | nil => rfl
  | cons c rest ih =>
    obtain ⟨hc, hrest⟩ := not_or.1 fun hmem => h (List.mem_cons.2 hmem)
    have hprefix : (first :: pattern).isPrefixOf (c :: rest) = false := by
      simp [List.isPrefixOf, hc]
    rw [without, hprefix, ih hrest]
    rfl

def Grouped (s : String) : Prop := ∀ c ∈ s.toList, c = '-' ∨ IsHexChar c

theorem Grouped.forall {s : String} (h : Grouped s) {p : Char → Bool} (hhyphen : p '-' = true)
    (hhex : ∀ k < 16, p (hexChar k) = true) : ∀ c ∈ s.toList, p c = true := by
  intro c hc
  rcases h c hc with rfl | hchar
  · exact hhyphen
  · exact hchar.of_forall (p := fun c => p c = true) hhex

theorem strip_of_grouped {s : String} (h : Grouped s) : strip s = s := by
  have hsolid : ∀ c ∈ s.toList, isBlank c = false := by
    intro c hc
    simpa using h.forall (p := fun c => !isBlank c) (by decide) (by decide) c hc
  rw [strip, stripChars, trimChars_eq_self_of_forall hsolid, String.ofList_toList]

theorem core_of_grouped {s : String} (h : Grouped s) : core s = s.toList.filter (· ≠ '-') := by
  have hlabel : 'u' ∉ s.toList := fun hmem =>
    absurd (h.forall (p := (· != 'u')) (by decide) (by decide) 'u' hmem) (by decide)
  have hbraces : ∀ c ∈ s.toList, isBrace c = false := by
    intro c hc
    simpa using h.forall (p := fun c => !isBrace c) (by decide) (by decide) c hc
  have hurn : without "urn:".toList 0 s.toList = s.toList := without_of_notMem hlabel
  have huuid : without "uuid:".toList 0 s.toList = s.toList := without_of_notMem hlabel
  rw [core, hurn, huuid, trimChars_eq_self_of_forall hbraces]

theorem read?_of_digits {s : String} {u : Uuid} (hs : Grouped s)
    (hdigits : s.toList.filter (· ≠ '-') = u.digits) : read? s = some u := by
  have hcore : core s = u.digits := (core_of_grouped hs).trans hdigits
  have hlength : u.digits.length = 32 := length_hexDigits 32 _
  have hvalue : readHex? u.digits = some ((u.bits.toNat : Nat) : Int) := by
    have hwidth : 32 ≠ 0 := by decide
    have hread := readHex?_hexDigits hwidth u.bits.toNat
    rwa [Nat.mod_eq_of_lt (show u.bits.toNat < 16 ^ 32 from u.bits.isLt)] at hread
  have hbits : ofNat u.bits.toNat = u := by rw [ofNat, BitVec.ofNat_toNat, BitVec.setWidth_eq]
  simp only [read?, hcore, hlength, if_true, hvalue]
  exact congrArg some hbits

theorem isHexChar_of_mem_digits {u : Uuid} {c : Char} (h : c ∈ u.digits) : IsHexChar c :=
  isHexChar_of_mem h

theorem filter_hyphen_digits {u : Uuid} {cs : List Char} (h : ∀ c ∈ cs, c ∈ u.digits) :
    cs.filter (· ≠ '-') = cs := by
  refine List.filter_eq_self.2 fun c hc => ?_
  exact (isHexChar_of_mem_digits (h c hc)).of_forall
    (p := fun c => decide (c ≠ '-') = true) (by decide)

theorem read?_plainText (u : Uuid) : read? u.plainText = some u := by
  have htext : u.plainText.toList = u.digits := String.toList_ofList
  refine read?_of_digits (fun c hc => ?_) ?_
  · rw [htext] at hc
    exact Or.inr (isHexChar_of_mem_digits hc)
  · rw [htext]
    exact filter_hyphen_digits fun _ h => h

theorem toList_text (u : Uuid) : u.text.toList =
    u.digits.take 8 ++ '-' :: ((u.digits.drop 8).take 4 ++ '-' :: ((u.digits.drop 12).take 4 ++
      '-' :: ((u.digits.drop 16).take 4 ++ '-' :: (u.digits.drop 20).take 12))) := by
  have hhyphen : "-".toList = ['-'] := by decide
  simp only [text, joinWith, String.intercalate_cons_cons, String.intercalate_singleton,
    String.toList_append, String.toList_ofList, hhyphen, List.drop_zero, List.append_assoc,
    List.singleton_append]

theorem take_drop_append (ds : List Char) (start count : Nat) :
    (ds.drop start).take count ++ ds.drop (start + count) = ds.drop start := by
  rw [← List.drop_drop, List.take_append_drop]

theorem join_groups (u : Uuid) : u.digits.take 8 ++ ((u.digits.drop 8).take 4 ++
    ((u.digits.drop 12).take 4 ++ ((u.digits.drop 16).take 4 ++ (u.digits.drop 20).take 12))) =
      u.digits := by
  have hlast : (u.digits.drop 20).take 12 = u.digits.drop 20 := by
    apply List.take_of_length_le
    rw [List.length_drop, digits, length_hexDigits]
  rw [hlast, take_drop_append _ 16 4, take_drop_append _ 12 4, take_drop_append _ 8 4,
    List.take_append_drop]

theorem grouped_text (u : Uuid) : Grouped u.text := by
  intro c hc
  rw [toList_text] at hc
  simp only [List.mem_append, List.mem_cons] at hc
  have htake {n k : Nat} (h : c ∈ (u.digits.drop n).take k) : c = '-' ∨ IsHexChar c :=
    Or.inr (isHexChar_of_mem_digits (List.mem_of_mem_drop (List.mem_of_mem_take h)))
  rcases hc with h | h | h | h | h | h | h | h | h
  · exact Or.inr (isHexChar_of_mem_digits (List.mem_of_mem_take h))
  all_goals first
    | exact Or.inl h
    | exact htake h

theorem read?_text (u : Uuid) : read? u.text = some u := by
  refine read?_of_digits (grouped_text u) ?_
  have hgroup {n k : Nat} : ((u.digits.drop n).take k).filter (fun c => decide ¬c = '-') =
      (u.digits.drop n).take k :=
    filter_hyphen_digits fun c hc => List.mem_of_mem_drop (List.mem_of_mem_take hc)
  have hfirst : (u.digits.take 8).filter (fun c => decide ¬c = '-') = u.digits.take 8 :=
    filter_hyphen_digits fun c hc => List.mem_of_mem_take hc
  rw [toList_text]
  simp only [List.filter_append, List.filter_cons, ne_eq, not_true_eq_false, decide_false,
    Bool.false_eq_true, if_false]
  rw [hgroup, hgroup, hgroup, hgroup, hfirst, join_groups]

end TableApi.Uuid
