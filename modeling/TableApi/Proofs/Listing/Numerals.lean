import TableApi.Proofs.Listing.Pages
import TableApi.Proofs.Number.Integer

/-! Numerals that ask for pages and sizes. As long as they are read, a larger numeral asks for no
smaller page and for no smaller size, and a page behind the last one is empty. A numeral that is too
long to be read asks for the first page and for the default size, however large its number is. -/

namespace TableApi

open Number Text

namespace Window

variable {p : Options.Pagination} {params : Entries Value} {n : Nat} {t : String}

/-- Whether a numeral is short enough to be read. -/
def IsRead (t : String) : Prop := t.length ≤ maxNumeralDigits

instance : DecidablePred IsRead := fun _ => inferInstanceAs (Decidable (_ ≤ _))

theorem readInt?_of_decimals (ht : Decimals n t.toList) :
    readInt? (.text t) = if IsRead t then some (n : Int) else none := ht.readPlainInteger?

theorem denotedPage_of_decimals (ht : Decimals n t.toList) (hn : 1 ≤ n) :
    denotedPage (.text t) = if IsRead t then n else 1 := by
  unfold denotedPage
  rw [readInt?_of_decimals ht]
  by_cases hread : IsRead t
  · have hdenoted : (1 : Int) ≤ n := by omega
    simp only [if_pos hread, if_pos hdenoted, Int.toNat_natCast]
  · simp only [if_neg hread]

/-- The page of a numeral: the one that it denotes, as far as the store can count, and the first
page for one that is not read. -/
theorem page_of_decimals (ht : Decimals n t.toList) (hn : 1 ≤ n)
    (hpage : Params.value params p.pageParam = .text t) :
    (ofParams p params).page.val =
      min (if IsRead t then n else 1) (maxOffset / (ofParams p params).size.val + 1) := by
  rw [← denotedPage_of_decimals ht hn, ← hpage]
  exact val_pageOf _ _

theorem size_of_decimals (ht : Decimals n t.toList) (hn : 1 ≤ n)
    (hsize : Params.value params p.sizeParam = .text t) :
    (ofParams p params).size.val =
      min (if IsRead t then n else p.defaultSize.val) p.maxSize.val := by
  have hval : (ofParams p params).size = sizeOf p (readInt? (.text t)) := by
    rw [← hsize]
    rfl
  rw [hval, readInt?_of_decimals ht]
  split
  · exact val_sizeOf_of_pos hn
  · exact val_sizeOf_of_not_pos nofun

/-! ### Growing windows -/

/-- At the same size the second text asks for no smaller page than the first. -/
def PageGrows (p : Options.Pagination) (s t : String) : Prop :=
  ∀ params params', Params.value params p.pageParam = .text s →
    Params.value params' p.pageParam = .text t →
      (ofParams p params).size = (ofParams p params').size →
        (ofParams p params).page.val ≤ (ofParams p params').page.val

/-- The second text asks for no smaller size than the first. -/
def SizeGrows (p : Options.Pagination) (s t : String) : Prop :=
  ∀ params params', Params.value params p.sizeParam = .text s →
    Params.value params' p.sizeParam = .text t →
      (ofParams p params).size.val ≤ (ofParams p params').size.val

section Growth

variable {m : Nat} {s : String} (hs : Decimals m s.toList) (ht : Decimals n t.toList) (hm : 1 ≤ m)
  (hmn : m ≤ n)
include hs ht hm hmn

theorem pageGrows_of_isRead (hread : IsRead t) : PageGrows p s t := by
  intro params params' hpage hpage' hsize
  rw [page_of_decimals hs hm hpage, page_of_decimals ht (hm.trans hmn) hpage', if_pos hread, hsize]
  apply min_le_min_right
  split
  · exact hmn
  · exact hm.trans hmn

theorem sizeGrows_of_isRead (hfirst : IsRead s) (hread : IsRead t) : SizeGrows p s t := by
  intro params params' hsize hsize'
  rw [size_of_decimals hs hm hsize, size_of_decimals ht (hm.trans hmn) hsize', if_pos hfirst,
    if_pos hread]
  exact min_le_min_right _ hmn

end Growth

/-! ### Pages behind the last one -/

/-- A page behind the last one begins behind all rows, when there are fewer than `2 ^ 62` of them in
pages of no more than that. -/
theorem le_offset_of_behind {w : Window} {total : Nat} (htotal : total < 2 ^ 62)
    (hsize : w.size.val ≤ 2 ^ 62) (hpage : w.page.val = min n (maxOffset / w.size.val + 1))
    (hbehind : total ⌈/⌉ w.size.val < n) : total ≤ w.offset := by
  have hpos : 0 < w.size.val := w.size.2
  have hall : total ≤ (n - 1) * w.size.val := by
    rw [Nat.mul_comm, ← ceilDiv_le_iff_le_mul hpos]
    exact Nat.le_sub_one_of_lt hbehind
  rw [offset, hpage]
  rcases le_total n (maxOffset / w.size.val + 1) with hreach | hfar
  · rwa [min_eq_left hreach]
  · -- The last page that the store can count is behind half of its offsets.
    have hlast : maxOffset < maxOffset / w.size.val * w.size.val + w.size.val :=
      Nat.lt_div_mul_add hpos
    rw [min_eq_right hfar, Nat.add_sub_cancel]
    rw [maxOffset_eq] at hlast ⊢
    omega

end Window

namespace Listing

open Window

variable {store : Store} {o : Options} {params : Entries Value} {base s : Select}

theorem shown_of_check (hs : refine o params base = .ok s) (hcheck : s.check store = .ok ())
    (hpage : (paged o.pagination params s).check store = .ok ()) :
    shown store o params base = .ok ⟨(paged o.pagination params s).rowsOf store,
      (paged o.pagination params s).answersOf store,
      if o.totals.enabled then some (s.answersOf store).length else none⟩ := by
  unfold shown compile Select.run Select.countAnswers Select.answers
  rw [hs]
  cases o.totals.enabled <;>
    simp [bind, Except.bind, pure, Except.pure, Except.map, hcheck, hpage]

/-- Of a table with fewer than `2 ^ 62` rows, in pages of no more than that, a text asks for an
empty page when the number is behind the last page. -/
def EmptyBehind (o : Options) (t : String) (n : Nat) : Prop :=
  ∀ (store : Store) (params : Entries Value) (base : Select) (full : Shown),
    base.isWindowed = false → Params.value params o.pagination.pageParam = .text t →
    (base.source store).length < 2 ^ 62 → (ofParams o.pagination params).size.val ≤ 2 ^ 62 →
    shown store o.unpaged params base = .ok full →
    full.answers.length ⌈/⌉ (ofParams o.pagination params).size.val < n →
      ∃ here, shown store o params base = .ok here ∧ here.answers = [] ∧
        here.total? = full.total? ∧
          (base.model?.isSome = true → base.output = .records → here.rows = [])

theorem emptyBehind_of_isRead (hpages : o.pagination.enabled = true) {n : Nat} {t : String}
    (ht : Decimals n t.toList) (hn : 1 ≤ n) (hread : IsRead t) : EmptyBehind o t n := by
  intro store params base full hbase hpage hrows hsize hfull hbehind
  rw [shown_unpaged_eq] at hfull
  obtain ⟨s, hs, hfull⟩ := bind_eq_ok_iff.1 hfull
  have hs := mapError_eq_ok_iff.1 hs
  obtain ⟨hmodel, hout, hwindow⟩ := refine_keeps hbase hs
  cases hcheck : s.check store with
  | error e =>
    rw [hcheck] at hfull
    cases hfull
  | ok _ =>
    rw [hcheck] at hfull
    obtain rfl := Except.ok.inj hfull
    have htotal : (s.answersOf store).length < 2 ^ 62 := by
      have hsource : s.source store = base.source store := by
        rw [Select.source, Select.source, hmodel]
      have hle := Select.length_answersOf_le hwindow store
      rw [hsource] at hle
      omega
    have hnumber := page_of_decimals ht hn hpage
    rw [if_pos hread] at hnumber
    have hoffset := le_offset_of_behind htotal hsize hnumber hbehind
    have hfits : fitsStore (ofParams o.pagination params).size.val = true := by
      rw [fitsStore_natCast, maxOffset_eq]
      omega
    have hruns := (check_paged_iff hpages params hwindow store).2 ⟨hcheck, hfits⟩
    refine ⟨_, shown_of_check hs hcheck hruns, ?_, rfl, fun hsome hrecords => ?_⟩
    · rw [answersOf_paged hpages params hwindow, List.drop_eq_nil_of_le hoffset, List.take_nil]
    · have hlength := Select.length_rowsOf_eq (hmodel ▸ hsome) (hout.trans hrecords) store
      rw [rowsOf_paged hpages params hwindow, List.drop_eq_nil_of_le (hlength.trans_le hoffset),
        List.take_nil]

/-- Numerals ask for windows that grow with their numbers, as long as they are read. Then a larger
one asks for no smaller page of the same size and for no smaller size, and a page behind the last
one is empty; in any case the window is known. A numeral that is too long to be read asks for the
first page and for the default size. -/
theorem windows_grow_while_read (hpages : o.pagination.enabled = true) {m n : Nat} {s t : String}
    (hs : Decimals m s.toList) (ht : Decimals n t.toList) (hm : 1 ≤ m) (hmn : m ≤ n) :
    (IsRead t → PageGrows o.pagination s t) ∧
      (IsRead s → IsRead t → SizeGrows o.pagination s t) ∧ (IsRead t → EmptyBehind o t n) ∧
      (∀ params, Params.value params o.pagination.pageParam = .text t →
        (ofParams o.pagination params).page.val =
          min (if IsRead t then n else 1)
            (maxOffset / (ofParams o.pagination params).size.val + 1)) ∧
      ∀ params, Params.value params o.pagination.sizeParam = .text t →
        (ofParams o.pagination params).size.val =
          min (if IsRead t then n else o.pagination.defaultSize.val) o.pagination.maxSize.val :=
  have hn : 1 ≤ n := hm.trans hmn
  ⟨pageGrows_of_isRead hs ht hm hmn, sizeGrows_of_isRead hs ht hm hmn,
    emptyBehind_of_isRead hpages ht hn, fun _ => page_of_decimals ht hn,
    fun _ => size_of_decimals ht hn⟩

theorem decimals_nine : Decimals 9 "9".toList := ⟨by decide, List.all_eq_true.1 rfl, rfl⟩

theorem decimals_twenty : Decimals 20 "0020".toList := ⟨by decide, List.all_eq_true.1 rfl, rfl⟩

/-- The posts are on three pages, so the ninth and the twentieth of them are empty, and of the two
sizes the larger is as large as pages are. -/
theorem windows_of_threePosts :
    (postPages.pagination.enabled = true ∧ Decimals 9 "9".toList ∧ Decimals 20 "0020".toList ∧
      (1 : Nat) ≤ 9 ∧ 9 ≤ 20 ∧ IsRead "0020") ∧
    PageGrows postPages.pagination "9" "0020" ∧ SizeGrows postPages.pagination "9" "0020" ∧
    ∃ here, shown threePosts postPages [("page", .text "0020")] (.all Posts.model) = .ok here ∧
      here.answers = [] ∧ here.total? = some 3 ∧ here.rows = [] := by
  have hread : IsRead "0020" := by decide
  obtain ⟨hpage, hsize, hempty, -, -⟩ :=
    windows_grow_while_read (o := postPages) rfl decimals_nine decimals_twenty (by decide) (by decide)
  have hfull : shown threePosts postPages.unpaged [("page", .text "0020")] (.all Posts.model) =
      .ok ⟨_, _, some 3⟩ := rfl
  obtain ⟨here, hrun, hanswers, htotal, hrows⟩ :=
    hempty hread threePosts [("page", .text "0020")] (.all Posts.model) _ rfl rfl (by decide)
      (by decide) hfull (by decide)
  exact ⟨⟨rfl, decimals_nine, decimals_twenty, by decide, by decide, hread⟩, hpage hread,
    hsize (by decide) hread, here, hrun, hanswers, htotal, hrows rfl rfl⟩

/-! ### A numeral that is not read -/

def nines (k : Nat) : String := String.ofList (List.replicate k '9')

theorem exists_decimals_nines (k : Nat) : ∃ n, 9 ≤ n ∧ Decimals n (nines (k + 1)).toList := by
  have hchars : (nines (k + 1)).toList = List.replicate k '9' ++ ['9'] := by
    rw [nines, String.toList_ofList, List.replicate_succ']
  have hdigits : ∀ c ∈ (nines (k + 1)).toList, c.isDigit = true := by
    intro c hc
    rw [nines, String.toList_ofList] at hc
    rw [List.eq_of_mem_replicate hc]
    rfl
  refine ⟨_, ?_, ⟨?_, hdigits, rfl⟩⟩
  · rw [hchars, List.map_append, List.map_singleton, digitsValue_concat]
    exact Nat.le_add_left _ _
  · rw [hchars]
    exact List.append_ne_nil_of_right_ne_nil _ (List.cons_ne_nil _ _)

theorem isRead_nines_iff {k : Nat} : IsRead (nines k) ↔ k ≤ maxNumeralDigits := by
  rw [IsRead, nines, ← String.length_toList, String.toList_ofList, List.length_replicate]

section Unread

variable {n : Nat} {t : String} (ht : Decimals n t.toList) (hn : 9 ≤ n) (hunread : ¬ IsRead t)
include ht hn hunread

theorem not_pageGrows_of_not_isRead : ¬ PageGrows postPages.pagination "2" t := by
  intro hgrows
  have hle := hgrows [("page", .text "2")] [("page", .text t)] rfl rfl rfl
  have hpage : (ofParams postPages.pagination [("page", .text t)]).page.val = 1 := by
    rw [page_of_decimals ht (by omega) rfl, if_neg hunread]
    rfl
  rw [hpage] at hle
  exact absurd hle (by decide)

theorem not_emptyBehind_of_not_isRead : ¬ EmptyBehind postPages t n := by
  intro hempty
  set s : Select := .all Posts.model
  set params : Entries Value := [("page", .text t)]
  have hsize : (ofParams postPages.pagination params).size.val = 1 := rfl
  have hpage : (ofParams postPages.pagination params).page.val = 1 := by
    rw [page_of_decimals ht (by omega) rfl, if_neg hunread]
    rfl
  have hoffset : (ofParams postPages.pagination params).offset = 0 := by
    rw [offset, hpage, Nat.sub_self, Nat.zero_mul]
  have hthree : (s.answersOf threePosts).length = 3 := by decide
  have hcheck : s.check threePosts = .ok () := rfl
  have hrefine : refine postPages params s = .ok s := rfl
  have hfull : shown threePosts postPages.unpaged params s =
      .ok ⟨s.rowsOf threePosts, s.answersOf threePosts, some 3⟩ := rfl
  have hbehind : (s.answersOf threePosts).length ⌈/⌉
      (ofParams postPages.pagination params).size.val < n := by
    rw [hthree, hsize]
    exact lt_of_lt_of_le (by decide) hn
  obtain ⟨here, hrun, hnone, -, -⟩ := hempty threePosts params s _ rfl rfl (by decide)
    (by rw [hsize]; decide) hfull hbehind
  have hpageCheck := (check_paged_iff (o := postPages.pagination) rfl params (s := s) rfl
    threePosts).2 ⟨hcheck, by rw [hsize]; decide⟩
  rw [shown_of_check hrefine hcheck hpageCheck] at hrun
  obtain rfl := Except.ok.inj hrun
  rw [answersOf_paged rfl params rfl, hsize, hoffset] at hnone
  have hlength := congrArg List.length hnone
  rw [List.drop_zero, List.length_take, hthree] at hlength
  exact absurd hlength (by decide)

end Unread

/-- One nine more than a numeral may have asks for the first page, so it is no page behind the
second one, and it shows the first post where the pages end with the third. -/
theorem not_grows_nines : ∃ n, Decimals 2 "2".toList ∧
    Decimals n (nines (maxNumeralDigits + 1)).toList ∧ 2 ≤ n ∧
    ¬ PageGrows postPages.pagination "2" (nines (maxNumeralDigits + 1)) ∧
    ¬ EmptyBehind postPages (nines (maxNumeralDigits + 1)) n := by
  obtain ⟨n, hn, ht⟩ := exists_decimals_nines maxNumeralDigits
  have hunread : ¬ IsRead (nines (maxNumeralDigits + 1)) := fun h =>
    Nat.not_succ_le_self _ (isRead_nines_iff.1 h)
  exact ⟨n, ⟨by decide, List.all_eq_true.1 rfl, rfl⟩, ht, by omega,
    not_pageGrows_of_not_isRead ht hn hunread, not_emptyBehind_of_not_isRead ht hn hunread⟩

end Listing

end TableApi
