import Mathlib.Data.List.DropRight
import TableApi.Text.Blank

/-! The two ends of a text. Trimming stops at the first character that it keeps, so a text with such
characters at both ends stays as it is. -/

namespace TableApi.Text

variable {drop more : Char → Bool} {c : Char}

/-- Trimming drops nothing in front of a character that it keeps. -/
theorem trimChars_cons (h : drop c = false) (cs : List Char) :
    trimChars drop (c :: cs) = c :: (cs.reverse.dropWhile drop).reverse := by
  have hfront : (c :: cs).dropWhile drop = c :: cs := by simp [h]
  rw [trimChars, hfront, List.reverse_cons, List.dropWhile_append]
  split
  · next hempty =>
    rw [List.isEmpty_iff.1 hempty]
    simp [h]
  · simp

theorem trimChars_cons_of_drop (h : drop c = true) (cs : List Char) :
    trimChars drop (c :: cs) = trimChars drop cs := by
  have hfront : (c :: cs).dropWhile drop = cs.dropWhile drop := by simp [h]
  rw [trimChars, hfront, trimChars]

/-- Trimming keeps a text that begins and ends with characters that it keeps. -/
theorem trimChars_eq_self (h : drop c = false) {cs : List Char} {last : Char}
    (hlast : (c :: cs).getLast? = some last) (hkeep : drop last = false) :
    trimChars drop (c :: cs) = c :: cs := by
  have hreverse : (c :: cs).reverse.head? = some last := by rw [List.head?_reverse, hlast]
  obtain ⟨front, hfront⟩ : ∃ front, (c :: cs).reverse = last :: front :=
    List.head?_eq_some_iff.1 hreverse
  have hback : (c :: cs).reverse.dropWhile drop = (c :: cs).reverse := by
    rw [hfront]
    simp [hkeep]
  have hhead : (c :: cs).dropWhile drop = c :: cs := by simp [h]
  rw [trimChars, hhead, hback, List.reverse_reverse]

/-- The first character that is left is none of those that are dropped. -/
theorem drop_of_mem_head?_trimChars {cs : List Char} (h : (trimChars drop cs).head? = some c) :
    drop c = false := by
  have hprefix : trimChars drop cs <+: cs.dropWhile drop := List.rdropWhile_prefix _ _
  obtain ⟨rest, hrest⟩ := hprefix
  have hhead : (cs.dropWhile drop).head? = some c := by
    rw [← hrest, List.head?_append, h, Option.some_or]
  have hnot := List.head?_dropWhile_not drop cs
  rwa [hhead] at hnot

theorem drop_of_mem_getLast?_trimChars {cs : List Char}
    (h : (trimChars drop cs).getLast? = some c) : drop c = false := by
  rw [trimChars, List.getLast?_reverse] at h
  have hnot := List.head?_dropWhile_not drop (cs.dropWhile drop).reverse
  rwa [h] at hnot

/-- Trimming keeps characters of which it drops none. -/
theorem trimChars_eq_self_of_forall {cs : List Char} (h : ∀ c ∈ cs, drop c = false) :
    trimChars drop cs = cs := by
  rcases List.eq_nil_or_concat' cs with rfl | ⟨front, last, rfl⟩
  · rfl
  · obtain ⟨first, rest, hcons⟩ := List.exists_cons_of_ne_nil (l := front ++ [last]) (by simp)
    have hlast : (first :: rest).getLast? = some last := by rw [← hcons, List.getLast?_concat]
    have hkeep : drop last = false := h last (List.mem_append_right _ (List.mem_singleton.2 rfl))
    rw [hcons] at h ⊢
    exact trimChars_eq_self (h first List.mem_cons_self) hlast hkeep

theorem trimChars_append_of_forall {before after : List Char}
    (hbefore : ∀ c ∈ before, drop c = true) (hafter : ∀ c ∈ after, drop c = true)
    (cs : List Char) :
    trimChars drop (before ++ (cs ++ after)) = trimChars drop cs := by
  have hnone : after.dropWhile drop = [] := List.dropWhile_eq_nil_iff.2 hafter
  have hback : ∀ c ∈ after.reverse, drop c = true := fun c hc => hafter c (List.mem_reverse.1 hc)
  rw [trimChars, trimChars, List.dropWhile_append_of_pos hbefore, List.dropWhile_append]
  split
  · next hempty => rw [hnone, List.isEmpty_iff.1 hempty]
  · rw [List.reverse_append, List.dropWhile_append_of_pos hback]

theorem exists_around_trimChars (drop : Char → Bool) (cs : List Char) :
    ∃ before after, cs = before ++ (trimChars drop cs ++ after) ∧
      (∀ c ∈ before, drop c = true) ∧ ∀ c ∈ after, drop c = true := by
  refine ⟨cs.takeWhile drop, ((cs.dropWhile drop).reverse.takeWhile drop).reverse, ?_,
    fun c hc => List.mem_takeWhile_imp hc,
    fun c hc => List.mem_takeWhile_imp (List.mem_reverse.1 hc)⟩
  rw [trimChars, ← List.reverse_append, List.takeWhile_append_dropWhile, List.reverse_reverse,
    List.takeWhile_append_dropWhile]

theorem trimChars_trimChars_of_le (hle : ∀ c, drop c = true → more c = true) (cs : List Char) :
    trimChars more (trimChars drop cs) = trimChars more cs := by
  obtain ⟨before, after, hcs, hbefore, hafter⟩ := exists_around_trimChars drop cs
  conv_rhs => rw [hcs]
  exact (trimChars_append_of_forall (fun c hc => hle c (hbefore c hc))
    (fun c hc => hle c (hafter c hc)) _).symm

theorem trimChars_trimChars (drop : Char → Bool) (cs : List Char) :
    trimChars drop (trimChars drop cs) = trimChars drop cs :=
  trimChars_trimChars_of_le (fun _ hc => hc) cs

theorem trimChars_sublist (drop : Char → Bool) (cs : List Char) :
    (trimChars drop cs).Sublist cs := by
  obtain ⟨before, after, hcs, -, -⟩ := exists_around_trimChars drop cs
  conv_rhs => rw [hcs]
  exact ((trimChars drop cs).sublist_append_left after).trans
    (List.sublist_append_right before (trimChars drop cs ++ after))

theorem strip_strip (s : String) : strip (strip s) = strip s := by
  rw [strip, strip, String.toList_ofList, stripChars, stripChars, trimChars_trimChars]

def BeginsSolid (s : String) : Prop := ∃ first, s.toList.head? = some first ∧ isBlank first = false

def EndsSolid (s : String) : Prop := ∃ last, s.toList.getLast? = some last ∧ isBlank last = false

theorem EndsSolid.append {t : String} (h : EndsSolid t) (s : String) : EndsSolid (s ++ t) := by
  obtain ⟨last, hlast, hsolid⟩ := h
  refine ⟨last, ?_, hsolid⟩
  rw [String.toList_append, List.getLast?_append, hlast, Option.some_or]

theorem strip_eq_self {s : String} {cs : List Char} (hs : s.toList = c :: cs)
    (hc : isBlank c = false) (h : EndsSolid s) : strip s = s := by
  obtain ⟨last, hlast, hsolid⟩ := h
  rw [hs] at hlast
  rw [strip, stripChars, hs, trimChars_eq_self hc hlast hsolid, ← hs, String.ofList_toList]

theorem stripChars_eq_self {s : String} (hbegins : BeginsSolid s) (hends : EndsSolid s) :
    stripChars s.toList = s.toList := by
  obtain ⟨first, hfirst, hsolid⟩ := hbegins
  obtain ⟨rest, hrest⟩ := List.head?_eq_some_iff.1 hfirst
  obtain ⟨last, hlast, hkeep⟩ := hends
  rw [hrest] at hlast
  rw [hrest, stripChars, trimChars_eq_self hsolid hlast hkeep]

end TableApi.Text
