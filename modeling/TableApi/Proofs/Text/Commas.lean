import TableApi.Proofs.Text.Ends

/-! Texts that list others between commas. The listed texts are the pieces without the white space
around them, those that are blank left out, so it makes no difference how much white space stands
around a piece and how many pieces are blank. -/

namespace TableApi.Text

/-! ### Pieces of a text -/

theorem splitChars_eq_splitOn (sep : Char) (cs : List Char) :
    splitChars sep cs = cs.splitOn sep := by
  induction cs with
  | nil =>
    rw [List.splitOn_nil]
    rfl
  | cons c cs ih =>
    rw [List.splitOn_cons_eq_if_modifyHead, ← ih]
    obtain ⟨piece, rest, hpieces⟩ : ∃ piece rest, splitChars sep cs = piece :: rest := by
      rw [ih]
      exact List.exists_cons_of_ne_nil (List.splitOn_ne_nil sep cs)
    rw [hpieces]
    unfold splitChars at hpieces ⊢
    rw [List.foldr_cons, hpieces]
    by_cases h : c = sep <;> simp [h]

/-- No separator is in a piece between separators. -/
theorem notMem_of_mem_splitOn {sep : Char} {cs piece : List Char} (h : piece ∈ cs.splitOn sep) :
    sep ∉ piece := by
  induction cs generalizing piece with
  | nil =>
    rw [List.splitOn_nil, List.mem_singleton] at h
    rw [h]
    exact List.not_mem_nil
  | cons c cs ih =>
    rw [List.splitOn_cons_eq_if_modifyHead] at h
    split at h
    · rcases List.mem_cons.1 h with rfl | hrest
      · exact List.not_mem_nil
      · exact ih hrest
    · next hc =>
      obtain ⟨first, rest, hsplit⟩ := List.exists_cons_of_ne_nil (List.splitOn_ne_nil sep cs)
      rw [hsplit, List.modifyHead_cons] at h
      rw [hsplit] at ih
      rcases List.mem_cons.1 h with rfl | hrest
      · rw [List.mem_cons, not_or]
        exact ⟨fun heq => hc (beq_iff_eq.2 heq.symm), ih List.mem_cons_self⟩
      · exact ih (List.mem_cons_of_mem _ hrest)

theorem notMem_strip {c : Char} {s : String} (h : c ∉ s.toList) : c ∉ (strip s).toList := by
  rw [strip, String.toList_ofList]
  exact fun hmem => h ((trimChars_sublist _ _).subset hmem)

/-! ### Lists between commas -/

/-- A text that is neither empty nor has white space around it or a comma in it. -/
structure IsListable (s : String) : Prop where
  nonempty : s ≠ ""
  stripped : strip s = s
  noComma : ',' ∉ s.toList

instance : DecidablePred IsListable := fun s =>
  decidable_of_iff (s ≠ "" ∧ strip s = s ∧ ',' ∉ s.toList)
    ⟨fun ⟨hne, hstrip, hcomma⟩ => ⟨hne, hstrip, hcomma⟩,
      fun h => ⟨h.nonempty, h.stripped, h.noComma⟩⟩

/-- A text lists others: it consists of pieces with commas between them, which are the listed texts
with white space around them, and blank pieces. -/
def Lists (s : String) (parts : List String) : Prop :=
  ∃ pieces : List String, pieces ≠ [] ∧ (∀ piece ∈ pieces, ',' ∉ piece.toList) ∧
    s = joinWith "," pieces ∧ parts = (pieces.map strip).filter (· ≠ "")

theorem splitAt_comma_of_join {pieces : List String} (hne : pieces ≠ [])
    (hcommas : ∀ piece ∈ pieces, ',' ∉ piece.toList) :
    splitAt ',' (joinWith "," pieces) = pieces := by
  have hchars : (joinWith "," pieces).toList = [','].intercalate (pieces.map String.toList) :=
    String.toList_intercalate
  have hnone : ∀ cs ∈ pieces.map String.toList, ',' ∉ cs := List.forall_mem_map.2 hcommas
  rw [splitAt, splitChars_eq_splitOn, hchars,
    List.splitOn_intercalate ',' hnone (mt List.map_eq_nil_iff.1 hne), List.map_map]
  simp [Function.comp_def]

theorem commaParts_of_lists {s : String} {parts : List String} (h : Lists s parts) :
    commaParts s = parts := by
  obtain ⟨pieces, hne, hcommas, rfl, rfl⟩ := h
  rw [commaParts, splitAt_comma_of_join hne hcommas]
  apply List.filter_congr
  intro part _
  rw [Bool.eq_iff_iff, decide_eq_true_iff]
  simp

theorem joinWith_splitAt_comma (s : String) : joinWith "," (splitAt ',' s) = s := by
  apply String.toList_injective
  have hchars : (joinWith "," (splitAt ',' s)).toList =
      [','].intercalate ((splitAt ',' s).map String.toList) := String.toList_intercalate
  rw [hchars, splitAt, splitChars_eq_splitOn, List.map_map]
  have hid : String.toList ∘ String.ofList = id := by
    funext cs
    exact String.toList_ofList
  rw [hid, List.map_id, List.intercalate_splitOn]

/-- Every text lists the parts that are read from it. -/
theorem lists_commaParts (s : String) : Lists s (commaParts s) := by
  have hne : splitAt ',' s ≠ [] := by
    rw [splitAt, splitChars_eq_splitOn]
    exact mt List.map_eq_nil_iff.1 (List.splitOn_ne_nil ',' s.toList)
  have hcommas : ∀ piece ∈ splitAt ',' s, ',' ∉ piece.toList := by
    rw [splitAt, splitChars_eq_splitOn]
    rintro _ hpiece
    obtain ⟨cs, hcs, rfl⟩ := List.mem_map.1 hpiece
    rw [String.toList_ofList]
    exact notMem_of_mem_splitOn hcs
  exact ⟨splitAt ',' s, hne, hcommas, (joinWith_splitAt_comma s).symm,
    (commaParts_of_lists ⟨_, hne, hcommas, (joinWith_splitAt_comma s).symm, rfl⟩)⟩

theorem lists_iff {s : String} {parts : List String} : Lists s parts ↔ parts = commaParts s :=
  ⟨fun h => (commaParts_of_lists h).symm, fun h => h ▸ lists_commaParts s⟩

theorem Lists.isListable {s : String} {parts : List String} (h : Lists s parts) :
    ∀ part ∈ parts, IsListable part := by
  obtain ⟨pieces, -, hcommas, -, rfl⟩ := h
  intro part hpart
  obtain ⟨hmem, hne⟩ := List.mem_filter.1 hpart
  obtain ⟨piece, hpiece, rfl⟩ := List.mem_map.1 hmem
  exact ⟨of_decide_eq_true hne, strip_strip piece, notMem_strip (hcommas piece hpiece)⟩

theorem lists_joinWith {texts : List String} (hne : texts ≠ [])
    (h : ∀ s ∈ texts, IsListable s) : Lists (joinWith "," texts) texts := by
  refine ⟨texts, hne, fun s hs => (h s hs).noComma, rfl, ?_⟩
  have hstrip : texts.map strip = texts :=
    (List.map_congr_left fun s hs => (h s hs).stripped).trans (List.map_id' texts)
  rw [hstrip, List.filter_eq_self.2 fun s hs => decide_eq_true (h s hs).nonempty]

/-- A text that lists more than one has a comma. -/
theorem comma_mem_of_lists {s : String} {parts : List String} (h : Lists s parts)
    (hlength : 2 ≤ parts.length) : ',' ∈ s.toList := by
  by_contra hnone
  have hone : (commaParts s).length ≤ 1 := by
    rw [commaParts, splitAt, splitChars_eq_splitOn, List.splitOn_eq_singleton hnone]
    exact List.length_filter_le _ _
  rw [commaParts_of_lists h] at hone
  omega

end TableApi.Text
