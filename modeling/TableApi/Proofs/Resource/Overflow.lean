import TableApi.Posts.Resource
import TableApi.Proofs.Listing.Integers
import TableApi.Proofs.Listing.Terms
import TableApi.Proofs.Resource.Listed
import TableApi.Proofs.Resource.Registered

/-! Integers beyond 64 bits in a listing. The offset of a page is kept within the range of the
store, but the numerals of conditions and the size of a page are not: each of them is bound as the
request writes it, and one that does not fit makes the store overflow while the resource is
listed. -/

namespace TableApi

open Number

namespace Resource

open Listing Select

def overflow : ServiceError := .store (.bind .wideInteger)

variable {r : Resource} {params : Entries Value} {requested : Option String} {store : Store}
  {s : Select}

/-! ### How a listing fails -/

/-- What the store refuses is the refined statement or its page. -/
theorem exists_check_of_index {e : StoreError}
    (h : r.index params requested store = .error (.store e)) :
    ∃ s, refine r.options params r.base = .ok s ∧
      (s.check store = .error e ∨
        (paged r.options.pagination params s).check store = .error e) := by
  rcases bind_eq_error_iff.1 h with hcompile | ⟨l, hl, h⟩
  · obtain ⟨failure, hcompile, hfailure⟩ := mapError_eq_error_iff.1 hcompile
    obtain rfl : failure = .store e := by
      cases failure <;> cases hfailure
      rfl
    rcases bind_eq_error_iff.1 hcompile with hrefine | ⟨s, hs, htotal⟩
    · obtain ⟨_, -, hbuild⟩ := mapError_eq_error_iff.1 hrefine
      cases hbuild
    · refine ⟨s, mapError_eq_ok_iff.1 hs, Or.inl ?_⟩
      split at htotal
      · rcases bind_eq_error_iff.1 htotal with hcount | ⟨total?, -, h⟩
        · refine countAnswers_eq_error_iff.1 ?_
          cases hresult : s.countAnswers store with
          | ok n =>
            rw [hresult] at hcount
            cases hcount
          | error failure =>
            rw [hresult] at hcount
            cases hcount
            rfl
        · cases h
      · cases htotal
  · obtain ⟨s, hs, hpage⟩ := exists_refine_of_compile (mapError_eq_ok_iff.1 hl)
    refine ⟨s, hs, Or.inr ?_⟩
    rcases bind_eq_error_iff.1 h with hrun | ⟨rows, -, h⟩
    · obtain ⟨failure, hrun, hfailure⟩ := mapError_eq_error_iff.1 hrun
      cases hfailure
      rw [← hpage]
      exact run_eq_error_iff.1 hrun
    · split at h <;> cases h

/-- A statement whose page the store refuses is not listed, and neither is one that it refuses
itself. -/
theorem index_eq_error {e : StoreError} (hs : refine r.options params r.base = .ok s)
    (hstatement : s.check store = .error e ∨ s.check store = .ok ())
    (hpage : (paged r.options.pagination params s).check store = .error e) :
    r.index params requested store = .error (.store e) := by
  have hcompile : compile store r.options params r.base = .error (.store e) ∨
      ∃ total?, compile store r.options params r.base =
        .ok ⟨paged r.options.pagination params s, total?⟩ := by
    unfold compile
    rw [hs]
    cases r.options.totals.enabled with
    | false => exact Or.inr ⟨none, rfl⟩
    | true =>
      rcases hstatement with herror | hok
      · refine Or.inl ?_
        have hcount := countAnswers_eq_error_iff.2 herror
        simp only [bind, Except.bind, mapError_ok, hcount]
        rfl
      · refine Or.inr ⟨some (s.answersOf store).length, ?_⟩
        have hcount := countAnswers_eq_ok_iff.2 ⟨hok, rfl⟩
        simp only [bind, Except.bind, mapError_ok, hcount]
        rfl
  unfold index
  rcases hcompile with herror | ⟨total?, hlisting⟩
  · rw [herror]
    rfl
  · rw [hlisting]
    simp only [bind, Except.bind, mapError_ok, run_eq_error_iff.2 hpage]
    rfl

/-! ### What a request brings in -/

/-- What a listing hands to the store in integers, and what comes of it. -/
structure HandsOver (r : Resource) (params : Entries Value) (requested : Option String)
    (store : Store) : Prop where
  /-- The page hands over the integers of the collection, the numerals of the conditions, the size
  and the offset, and no others. -/
  integers : ∀ s, refine r.options params r.base = .ok s →
    (paged r.options.pagination params s).integers =
      r.base.integers ++ requestedIntegers r.options params r.base.model?
  own : ∀ n ∈ r.base.integers, fitsStore n = true
  offset : fitsStore (Window.ofParams r.options.pagination params).offset = true
  /-- Numerals that fit, and pages whose largest size fits, are all that it takes. -/
  fits : (∀ c ∈ conditions r.options params, ∀ n ∈ c.integers r.base.model?, fitsStore n = true) →
    (r.options.pagination.enabled = true → fitsStore r.options.pagination.maxSize.val = true) →
      ∀ n ∈ requestedIntegers r.options params r.base.model?, fitsStore n = true
  /-- An overflow comes from an integer that the request brings in. -/
  overflow : r.index params requested store = .error overflow →
    ∃ n ∈ requestedIntegers r.options params r.base.model?, fitsStore n = false
  /-- A request that brings in an integer that does not fit is not listed. -/
  refused : ∀ n ∈ requestedIntegers r.options params r.base.model?, fitsStore n = false →
    ∃ e, r.index params requested store = .error e
  /-- Where nothing else is wrong, it overflows. -/
  overflows : (∀ field ∈ r.options.fieldNames, field ∈ r.model.fields) →
    ∀ s, refine r.options params r.base = .ok s → ¬ s.MeetsComplexPattern store →
      (∀ p ∈ s.parameters, Binds p ∨ (integer? p).isSome) →
        ∀ n ∈ requestedIntegers r.options params r.base.model?, fitsStore n = false →
          r.index params requested store = .error Resource.overflow

theorem mem_requestedIntegers {o : Options} {model? : Option Model} {n : Int} :
    n ∈ requestedIntegers o params model? ↔
      (∃ c ∈ conditions o params, n ∈ c.integers model?) ∨
        o.pagination.enabled = true ∧ (n = (Window.ofParams o.pagination params).size.val ∨
          n = (Window.ofParams o.pagination params).offset) := by
  rw [requestedIntegers, List.mem_append, List.mem_flatMap, pageIntegers]
  split <;> simp_all

theorem fits_of_bounds {o : Options} {model? : Option Model}
    (hnumerals : ∀ c ∈ conditions o params, ∀ n ∈ c.integers model?, fitsStore n = true)
    (hsize : o.pagination.enabled = true → fitsStore o.pagination.maxSize.val = true) :
    ∀ n ∈ requestedIntegers o params model?, fitsStore n = true := by
  intro n hn
  rcases mem_requestedIntegers.1 hn with ⟨c, hc, hmem⟩ | ⟨hon, rfl | rfl⟩
  · exact hnumerals c hc n hmem
  · exact fitsStore_natCast.2 ((Window.size_le_maxSize _ _).trans (fitsStore_natCast.1 (hsize hon)))
  · exact fitsStore_natCast.2 (offset_le _ _)

section Listing

variable {items : List Params.Item} (hbase : r.base.isWindowed = false)
include hbase

theorem mem_page_of_mem (hs : refine r.options params r.base = .ok s) {n : Int}
    (hn : n ∈ s.integers) : n ∈ (paged r.options.pagination params s).integers := by
  rw [integers_paged _ _ (refine_keeps hbase hs).2.2]
  exact List.mem_append_left _ hn

theorem exists_unfit_of_index (hruns : r.base.check store = .ok ())
    (h : r.index (Params.parse items) requested store = .error overflow) :
    ∃ n ∈ requestedIntegers r.options (Params.parse items) r.base.model?, fitsStore n = false := by
  obtain ⟨s, hs, hcheck⟩ := exists_check_of_index h
  obtain ⟨n, hn, hunfit⟩ : ∃ n ∈ (paged r.options.pagination (Params.parse items) s).integers,
      fitsStore n = false := by
    rcases hcheck with hstatement | hpage
    · obtain ⟨n, hn, hunfit⟩ := exists_unfit_of_overflow hstatement
      exact ⟨n, mem_page_of_mem hbase hs hn, hunfit⟩
    · exact exists_unfit_of_overflow hpage
  rw [integers_of_page hbase hs] at hn
  rcases List.mem_append.1 hn with hown | hrequested
  · rw [fits_of_check hruns n hown] at hunfit
    cases hunfit
  · exact ⟨n, hrequested, hunfit⟩

theorem exists_error_of_unfit {n : Int}
    (hn : n ∈ requestedIntegers r.options (Params.parse items) r.base.model?)
    (hunfit : fitsStore n = false) : ∃ e, r.index (Params.parse items) requested store = .error e := by
  cases hindex : r.index (Params.parse items) requested store with
  | error e => exact ⟨e, rfl⟩
  | ok answer =>
    obtain ⟨l, hl, hcheck, -⟩ := index_eq_ok_iff.1 hindex
    obtain ⟨s, hs, hpage⟩ := exists_refine_of_compile hl
    rw [hpage] at hcheck
    have hmem : n ∈ (paged r.options.pagination (Params.parse items) s).integers := by
      rw [integers_of_page hbase hs]
      exact List.mem_append_right _ hn
    rw [fits_of_check hcheck n hmem] at hunfit
    cases hunfit

/-- Options that list only fields of the model bring in no unknown name. -/
theorem unknownName?_of_refine (hmodel : r.base.model? = some r.model)
    (hnames : r.base.unknownName? = none)
    (hfields : ∀ field ∈ r.options.fieldNames, field ∈ r.model.fields)
    (hs : refine r.options params r.base = .ok s) : s.unknownName? = none := by
  have hmeaning : ∀ field ∈ r.options.fieldNames,
      ((Term.ofField (some r.model) field).meaning? (some r.model)).isSome := by
    intro field hfield
    obtain ⟨c, -, hc⟩ := Term.exists_ofField_eq_column (hfields field hfield)
    rw [hc]
    rfl
  have hlisted : ∀ {field}, field ∈ r.options.sorting.allowed ++ r.options.searching.fields ++
      r.options.filtering.fields → field ∈ r.options.fieldNames :=
    fun h => List.mem_eraseDups.2 h
  rw [unknownName?_eq_none_iff, hmodel] at hnames
  rw [unknownName?_eq_none_iff, (refine_keeps hbase hs).1, hmodel]
  exact forall_terms_of_refine hbase hmodel hnames
    (fun field h => hmeaning field (hlisted (by simp [h])))
    (fun field h => hmeaning field (hlisted (by simp [h])))
    (fun field h => hmeaning field (hlisted (by simp [h])))
    (fun _ _ c _ => rfl) hs

/-- Where everything but the integers can be bound, one that does not fit overflows. -/
theorem index_eq_overflow (hmodel : r.base.model? = some r.model)
    (hruns : r.base.check store = .ok ())
    (hfields : ∀ field ∈ r.options.fieldNames, field ∈ r.model.fields)
    (hs : refine r.options (Params.parse items) r.base = .ok s)
    (hsimple : ¬ s.MeetsComplexPattern store)
    (hothers : ∀ p ∈ s.parameters, Binds p ∨ (integer? p).isSome) {n : Int}
    (hn : n ∈ requestedIntegers r.options (Params.parse items) r.base.model?)
    (hunfit : fitsStore n = false) :
    r.index (Params.parse items) requested store = .error overflow := by
  obtain ⟨hout, -, hnames, -⟩ := (check_eq_ok_iff _ _).1 hruns
  obtain ⟨-, houtput, hwindow⟩ := refine_keeps hbase hs
  have hknown := unknownName?_of_refine hbase hmodel hnames hfields hs
  have hout' : s.output ≠ .nothing := houtput ▸ hout
  have hstatement : s.check store = .error (.bind .wideInteger) ∨ s.check store = .ok () := by
    by_cases hall : ∀ k ∈ s.integers, fitsStore k = true
    · refine Or.inr ((check_eq_ok_iff s store).2 ⟨hout', fun p hp => ?_, hknown, hsimple⟩)
      rcases hothers p hp with hbinds | hinteger
      · exact hbinds
      · obtain ⟨k, hk⟩ := Option.isSome_iff_exists.1 hinteger
        exact (binds_of_integer hk).2 (hall k (List.mem_filterMap.2 ⟨p, hp, hk⟩))
    · push Not at hall
      obtain ⟨k, hk, hwide⟩ := hall
      exact Or.inl (overflow_of_unfit hout' hknown hothers hk (by simpa using hwide))
  refine index_eq_error hs hstatement (overflow_of_unfit ?_ ?_ ?_ ?_ hunfit)
  · rw [output_paged]
    exact hout'
  · rw [unknownName?_paged]
    exact hknown
  · intro p hp
    rw [parameters_paged _ _ hwindow] at hp
    rcases List.mem_append.1 hp with hp | hp
    · exact hothers p hp
    · obtain ⟨k, -, rfl⟩ := List.mem_map.1 hp
      exact Or.inr rfl
  · rw [integers_of_page hbase hs]
    exact List.mem_append_right _ hn

/-- The integers that reach the store while a resource is listed, for every query string. Those of
the request are the numerals of its conditions on columns of integers, the size of the page and its
offset; of these only the offset is kept within the range of the store, and the store overflows when
one of the others is beyond it. -/
theorem integers_reach_store (hmodel : r.base.model? = some r.model) (hruns : r.base.check store = .ok ())
    (items : List Params.Item) (requested : Option String) :
    HandsOver r (Params.parse items) requested store where
  integers _ hs := integers_of_page hbase hs
  own := fits_of_check hruns
  offset := fitsStore_natCast.2 (offset_le _ _)
  fits := fits_of_bounds
  overflow := exists_unfit_of_index hbase hruns
  refused _ hn hunfit := exists_error_of_unfit hbase hn hunfit
  overflows hfields _ hs hsimple hothers _ hn hunfit :=
    index_eq_overflow hbase hmodel hruns hfields hs hsimple hothers hn hunfit

end Listing

/-! ### Posts found by their numbers -/

/-- Posts that can be filtered by their numbers, in pages of up to as many rows as the store cannot
count. -/
def numberedPosts : Registration :=
  { Posts.registration with
    options := .map [
      ("pagination", .map [("enabled", .bool true), ("max_per", .int 9223372036854775808)]),
      ("filtering", .map [("enabled", .bool true), ("filterable_fields", Posts.texts ["id"])])] }

def byNumber (number : String) : List Params.Item := [⟨"filter[id][eq]", number⟩]

/-- Whether a listing is refused because of an integer. -/
def isOverflow (x : Except ServiceError (Entries Value)) : Bool :=
  x matches .error (.store (.bind .wideInteger))

theorem eq_overflow_of_isOverflow {x : Except ServiceError (Entries Value)}
    (h : isOverflow x = true) : x = .error overflow := by
  unfold isOverflow at h
  split at h
  · rfl
  · cases h

/-- A number that fits is handed over next to the size and the offset of the page, and nothing
overflows. -/
theorem smallNumber_reaches_store : ∃ registry r,
    Registry.register [] numberedPosts = .ok (registry, r) ∧ r.base.isWindowed = false ∧
      r.base.model? = some r.model ∧ r.base.check [] = .ok () ∧
      HandsOver r (Params.parse (byNumber "1")) none [] ∧
      requestedIntegers r.options (Params.parse (byNumber "1")) r.base.model? = [1, 10, 0] ∧
      r.index (Params.parse (byNumber "1")) none [] ≠ .error overflow := by
  have hfacts : (Registry.register [] numberedPosts).toOption.map (fun p =>
      requestedIntegers p.2.options (Params.parse (byNumber "1")) p.2.base.model?) =
        some [1, 10, 0] := by
    decide +kernel
  obtain ⟨⟨registry, r⟩, hregister, hrequested⟩ := exists_of_toOption_map hfacts
  obtain ⟨name, hdefine⟩ := Registry.exists_define_of_register hregister
  obtain ⟨-, hmodel, hcollection, -⟩ := Registry.of_define hdefine
  have hbase : r.base = .all r.model := by
    rw [base, hcollection]
    rfl
  have hruns : r.base.check [] = .ok () := hbase ▸ check_all r.model []
  have hover := integers_reach_store (hbase ▸ rfl) (hbase ▸ rfl) hruns (byNumber "1") none
  have hrequested : requestedIntegers r.options (Params.parse (byNumber "1")) r.base.model? =
      [1, 10, 0] := hrequested
  have hfit : ∀ n ∈ [(1 : Int), 10, 0], fitsStore n = true := by decide
  refine ⟨registry, r, hregister, hbase ▸ rfl, hbase ▸ rfl, hruns, hover, hrequested, fun h => ?_⟩
  obtain ⟨n, hn, hunfit⟩ := hover.overflow h
  rw [hrequested] at hn
  rw [hfit n hn] at hunfit
  cases hunfit

/-- A number beyond 64 bits, asked for as the number of a post or as the size of a page, is bound as
it is and overflows. -/
theorem index_overflows : ∃ registry r,
    Registry.register [] numberedPosts = .ok (registry, r) ∧
      9223372036854775808 ∈ requestedIntegers r.options
        (Params.parse (byNumber "9223372036854775808")) r.base.model? ∧
      fitsStore 9223372036854775808 = false ∧
      r.index (Params.parse (byNumber "9223372036854775808")) none [] = .error overflow ∧
      r.index (Params.parse [⟨"size", "9223372036854775808"⟩]) none [] = .error overflow := by
  have hfacts : (Registry.register [] numberedPosts).toOption.map (fun p =>
      (decide (9223372036854775808 ∈ requestedIntegers p.2.options
          (Params.parse (byNumber "9223372036854775808")) p.2.base.model?),
        isOverflow (p.2.index (Params.parse (byNumber "9223372036854775808")) none []),
        isOverflow (p.2.index (Params.parse [⟨"size", "9223372036854775808"⟩]) none []))) =
      some (true, true, true) := by
    decide +kernel
  obtain ⟨⟨registry, r⟩, hregister, hall⟩ := exists_of_toOption_map hfacts
  simp only [Prod.mk.injEq, decide_eq_true_eq] at hall
  exact ⟨registry, r, hregister, hall.1, by decide, eq_overflow_of_isOverflow hall.2.1,
    eq_overflow_of_isOverflow hall.2.2⟩

end Resource

end TableApi
