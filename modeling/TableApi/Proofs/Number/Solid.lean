import TableApi.Number.Decimal
import TableApi.Proofs.Text.Ends

/-! White space and the numerals of floating-point numbers. There is none in a numeral that is read,
so the information separators, which may stand around other values, never stand around such a
numeral. -/

namespace TableApi

open Text Number

namespace Number

def Solid (cs : List Char) : Prop := ∀ c ∈ cs, isBlank c = false

instance : DecidablePred Solid := fun cs => List.decidableBAll (fun c => isBlank c = false) cs

theorem isBlank_of_digitValue? {c : Char} (h : (digitValue? c).isSome = true) :
    isBlank c = false := by
  have hdigits : ∀ first ∈ digitZeros, ∀ k < 10, isBlank (Char.ofNat (first + k)) = false := by
    decide +kernel
  obtain ⟨n, hn⟩ := Option.isSome_iff_exists.1 h
  obtain ⟨first, hfirst, hvalue⟩ := List.exists_of_findSome?_eq_some hn
  split at hvalue
  · next hrange =>
    have hc := hdigits first hfirst (c.toNat - first) (by omega)
    rwa [Nat.add_sub_cancel' hrange.1, Char.ofNat_toNat] at hc
  · cases hvalue

theorem toLower_of_isBlank {c : Char} (h : isBlank c = true) : c.toLower = c := by
  have hrange : ¬ (65 ≤ c.toNat ∧ c.toNat ≤ 90) := by
    simp only [isBlank, Bool.or_eq_true, Bool.and_eq_true, decide_eq_true_eq, beq_iff_eq] at h
    omega
  unfold Char.toLower
  split
  · next hupper => exact absurd hupper hrange
  · rfl

theorem solid_of_lowerChars {cs : List Char} (h : Solid (Decimal.lowerChars cs)) : Solid cs := by
  intro c hc
  refine Bool.eq_false_iff.2 fun hblank => ?_
  have hmem : c ∈ Decimal.lowerChars cs := by
    rw [← toLower_of_isBlank hblank]
    exact List.mem_map_of_mem hc
  exact Bool.false_ne_true ((h c hmem).symm.trans hblank)

theorem solid_of_takeDigits {cs : List Char} (h : Solid (Decimal.takeDigits cs).2) : Solid cs := by
  intro c hc
  rw [← List.takeWhile_append_dropWhile (p := fun c => (digitValue? c).isSome) (l := cs)] at hc
  rcases List.mem_append.1 hc with hdigit | hrest
  · have hsome := List.all_eq_true.1 List.all_takeWhile c hdigit
    exact isBlank_of_digitValue? hsome
  · exact h c hrest

theorem solid_of_splitSign {cs : List Char} (h : Solid (splitSign cs).2) : Solid cs := by
  unfold splitSign at h
  split at h
  · exact List.forall_mem_cons.2 ⟨by decide, h⟩
  · exact List.forall_mem_cons.2 ⟨by decide, h⟩
  · exact h

theorem solid_of_readExponent? {cs : List Char} {n : Int} (h : Decimal.readExponent? cs = some n) :
    Solid cs := by
  unfold Decimal.readExponent? at h
  split at h
  · exact nofun
  · next c rest =>
    split at h
    · next hc =>
      have hletter : isBlank c = false := by rcases hc with rfl | rfl <;> decide
      refine List.forall_mem_cons.2 ⟨hletter, solid_of_splitSign (solid_of_takeDigits ?_)⟩
      simp only at h
      split at h
      · cases h
      · next heq =>
        rw [heq]
        exact nofun
      · cases h
    · cases h

theorem solid_of_readUnsigned? {cs : List Char} {p : Nat × Int}
    (h : Decimal.readUnsigned? cs = some p) : Solid cs := by
  unfold Decimal.readUnsigned? at h
  apply solid_of_takeDigits
  simp only at h
  generalize (Decimal.takeDigits cs).2 = rest at h ⊢
  split at h
  · next more =>
    split at h
    · cases h
    · obtain ⟨n, hn, -⟩ := Option.map_eq_some_iff.1 h
      exact List.forall_mem_cons.2 ⟨by decide, solid_of_takeDigits (solid_of_readExponent? hn)⟩
  · split at h
    · cases h
    · obtain ⟨n, hn, -⟩ := Option.map_eq_some_iff.1 h
      exact solid_of_readExponent? hn

theorem solid_of_filter {cs : List Char} (h : Solid (cs.filter (· ≠ '_'))) : Solid cs := by
  intro c hc
  by_cases hunderscore : c = '_'
  · rw [hunderscore]
    decide
  · exact h c (List.mem_filter.2 ⟨hc, decide_eq_true hunderscore⟩)

end Number

namespace Double

/-- No white space is left in a numeral that is read. -/
theorem solid_of_read? {s : String} {x : Double} (h : read? s = some x) :
    Solid (trimChars isNumeralBlank s.toList) := by
  unfold read? at h
  simp only at h
  split at h
  · apply solid_of_filter
    apply solid_of_splitSign
    split at h
    · next hword => exact solid_of_lowerChars (by rw [hword]; decide)
    · next hword => exact solid_of_lowerChars (by rw [hword]; decide)
    · next hword => exact solid_of_lowerChars (by rw [hword]; decide)
    · obtain ⟨p, hp, -⟩ := Option.map_eq_some_iff.1 h
      exact solid_of_readUnsigned? hp
  · cases h

/-- Stripping changes nothing about a numeral that is read. -/
theorem read?_strip {s : String} {x : Double} (h : read? s = some x) :
    read? (strip s) = some x := by
  have hsolid := solid_of_read? h
  have hle : ∀ c, isNumeralBlank c = true → isBlank c = true := fun c hc =>
    (Bool.and_eq_true_iff.1 hc).1
  have hstrip : (strip s).toList = trimChars isNumeralBlank s.toList := by
    rw [strip, String.toList_ofList, stripChars, ← trimChars_trimChars_of_le hle,
      trimChars_eq_self_of_forall hsolid]
  rw [← h, read?, read?, hstrip, trimChars_trimChars]

end Double

end TableApi
