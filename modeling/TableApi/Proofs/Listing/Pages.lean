import Mathlib.Algebra.Order.Floor.Div
import TableApi.Proofs.Listing.Refinement
import TableApi.Proofs.Listing.Window
import TableApi.Proofs.Statement.Check
import TableApi.Proofs.Statement.Rows
import TableApi.Posts.Model

/-! The pages of a listing. A page is a window on the rows that the listing has without pagination,
and the windows of consecutive pages stand next to each other, so that the pages together show every
row once and in order. The total is that of the matching rows: it depends on neither the page nor
its size nor the order. -/

namespace TableApi

open Number

/-- The store counts rows in integers of its own. -/
def Store.Counted (s : Store) : Prop := ∀ t ∈ s, fitsStore t.rows.length = true

theorem fitsStore_natCast {n : Nat} : fitsStore n = true ↔ n ≤ Window.maxOffset := by
  unfold fitsStore minStored maxStored Window.maxOffset
  rw [decide_eq_true_eq]
  omega

def Options.unpaged (o : Options) : Options :=
  { o with pagination := { o.pagination with enabled := false } }

theorem Select.length_source_le {store : Store} (hs : store.Counted) (s : Select) :
    (s.source store).length ≤ Window.maxOffset := by
  unfold source
  split
  · next m _ =>
    unfold Store.rows
    cases ht : store.table? m.table with
    | none => simp
    | some t =>
      exact fitsStore_natCast.1 (hs t (List.mem_of_find?_eq_some ht))
  · simp [Window.maxOffset]

namespace Listing

/-! ### Statements of pages -/

theorem output_paged (o : Options.Pagination) (params : Entries Value) (s : Select) :
    (paged o params s).output = s.output := by
  unfold paged
  split <;> rfl

theorem unknownName?_paged (o : Options.Pagination) (params : Entries Value) (s : Select) :
    (paged o params s).unknownName? = s.unknownName? := by
  unfold paged
  split <;> rfl

theorem windowed_paged {α : Type} {o : Options.Pagination} (h : o.enabled = true)
    (params : Entries Value) (s : Select) (xs : List α) :
    (paged o params s).windowed xs =
      (xs.drop (Window.ofParams o params).offset).take (Window.ofParams o params).size.val := by
  simp [paged, h, Select.windowed]

theorem rowsOf_paged {o : Options.Pagination} (h : o.enabled = true) (params : Entries Value)
    {s : Select} (hs : s.isWindowed = false) (store : Store) :
    (paged o params s).rowsOf store =
      ((s.rowsOf store).drop (Window.ofParams o params).offset).take
        (Window.ofParams o params).size.val := by
  unfold Select.rowsOf
  rw [windowed_paged h, Select.windowed_of_not_isWindowed hs]
  simp [paged, h, Select.source, Select.matching, Select.sorted]

theorem answersOf_paged {o : Options.Pagination} (h : o.enabled = true) (params : Entries Value)
    {s : Select} (hs : s.isWindowed = false) (store : Store) :
    (paged o params s).answersOf store =
      ((s.answersOf store).drop (Window.ofParams o params).offset).take
        (Window.ofParams o params).size.val := by
  have hrows : (paged o params s).sorted ((paged o params s).matching
      ((paged o params s).source store)) = s.sorted (s.matching (s.source store)) := by
    simp [paged, h, Select.source, Select.matching, Select.sorted]
  have hmodel : (paged o params s).model? = s.model? := by simp [paged, h]
  unfold Select.answersOf
  simp only [hrows, output_paged, hmodel, windowed_paged h, Select.windowed_of_not_isWindowed hs]
  cases s.output <;> cases s.model? <;> simp [List.map_drop, List.map_take]

theorem offset_le (o : Options.Pagination) (params : Entries Value) :
    (Window.ofParams o params).offset ≤ Window.maxOffset :=
  (Window.pred_mul_le_iff (Window.ofParams o params).size.2 _).2 (Nat.min_le_right _ _)

theorem binds_int_iff (n : Int) :
    Select.Binds (.asGiven, .int n) ↔ fitsStore n = true := by
  simp only [Select.Binds, ParameterType.prepare, Prepared.ofValue, Prepared.ofInt]
  split <;> simp_all

/-- A page runs exactly when the statement without a window does and the store takes the size. -/
theorem check_paged_iff {o : Options.Pagination} (h : o.enabled = true) (params : Entries Value)
    {s : Select} (hs : s.isWindowed = false) (store : Store) :
    (paged o params s).check store = .ok () ↔
      s.check store = .ok () ∧ fitsStore (Window.ofParams o params).size.val = true := by
  have hoffset : fitsStore (Window.ofParams o params).offset = true :=
    fitsStore_natCast.2 (offset_le o params)
  obtain ⟨hl, ho⟩ := Select.isWindowed_eq_false.1 hs
  have hparams : ∀ P : ParameterType × Value → Prop,
      (∀ p ∈ (paged o params s).parameters, P p) ↔
        (∀ p ∈ s.parameters, P p) ∧ P (.asGiven, .int (Window.ofParams o params).size.val) ∧
          P (.asGiven, .int (Window.ofParams o params).offset) := by
    intro P
    simp [Select.parameters, Select.windowParameters, paged, h, hl, ho, Select.isWindowed,
      or_imp, forall_and]
  rw [Select.check_eq_ok_iff, Select.check_eq_ok_iff, hparams, binds_int_iff, binds_int_iff]
  have hpattern : (paged o params s).MeetsComplexPattern store ↔ s.MeetsComplexPattern store := by
    simp [paged, h, Select.MeetsComplexPattern, Select.source]
  rw [unknownName?_paged, hpattern, output_paged]
  tauto

/-! ### What a listing shows -/

/-- What a listing shows: the rows and the answers of its page, and the total. -/
structure Shown where
  rows : List Row
  answers : List (Entries Value)
  total? : Option Nat

/-- Compile a listing and run the statement of its page. -/
def shown (store : Store) (o : Options) (params : Entries Value) (base : Select) :
    Except ListingError Shown := do
  let listing ← compile store o params base
  let rows ← (listing.page.run store).mapError .store
  let answers ← (listing.page.answers store).mapError .store
  pure ⟨rows, answers, listing.total?⟩

variable {store : Store} {o : Options} {params q : Entries Value} {base s : Select} {here : Shown}

/-- A listing with a total compiles exactly when its statement runs, of which the total counts all
answers. -/
theorem compile_eq_ok_iff (htotals : o.totals.enabled = true) (hs : refine o params base = .ok s)
    {l : Listing} : compile store o params base = .ok l ↔
      s.check store = .ok () ∧
        ⟨paged o.pagination params s, some (s.answersOf store).length⟩ = l := by
  have hcompile : compile store o params base =
      ((s.countAnswers store).mapError .store).map fun n =>
        ⟨paged o.pagination params s, some n⟩ := by
    simp only [compile, hs, htotals, bind, Except.bind, mapError_ok]
    cases s.countAnswers store <;> rfl
  rw [hcompile]
  constructor
  · intro h
    cases hcount : s.countAnswers store with
    | error e =>
      rw [hcount] at h
      cases h
    | ok n =>
      rw [hcount] at h
      obtain ⟨hcheck, rfl⟩ := Select.countAnswers_eq_ok_iff.1 hcount
      exact ⟨hcheck, Except.ok.inj h⟩
  · rintro ⟨hcheck, rfl⟩
    rw [Select.countAnswers_eq_ok_iff.2 ⟨hcheck, rfl⟩]
    rfl

/-- What is shown with a total: the part of the refined statement that the page cuts out, and the
count of all its answers. -/
theorem shown_eq_ok_iff (htotals : o.totals.enabled = true) (hs : refine o params base = .ok s) :
    shown store o params base = .ok here ↔
      s.check store = .ok () ∧ (paged o.pagination params s).check store = .ok () ∧
        here = ⟨(paged o.pagination params s).rowsOf store,
          (paged o.pagination params s).answersOf store, some (s.answersOf store).length⟩ := by
  simp only [shown, bind_eq_ok_iff, compile_eq_ok_iff htotals hs, mapError_eq_ok_iff,
    Select.run_eq_ok_iff, Select.answers_eq_ok_iff]
  constructor
  · rintro ⟨_, ⟨hcheck, rfl⟩, _, ⟨hpage, rfl⟩, _, ⟨-, rfl⟩, h⟩
    exact ⟨hcheck, hpage, (Except.ok.inj h).symm⟩
  · rintro ⟨hcheck, hpage, rfl⟩
    exact ⟨_, ⟨hcheck, rfl⟩, _, ⟨hpage, rfl⟩, _, ⟨hpage, rfl⟩, rfl⟩

theorem exists_refine_of_shown (h : shown store o params base = .ok here) :
    ∃ s, refine o params base = .ok s := by
  obtain ⟨l, hl, -⟩ := bind_eq_ok_iff.1 h
  obtain ⟨s, hs, -⟩ := exists_refine_of_compile hl
  exact ⟨s, hs⟩

/-- What is shown without pages: all rows and answers of the refined statement, when it passes its
check, and the count of its answers when the options ask for it. -/
theorem shown_unpaged_eq (store : Store) (o : Options) (params : Entries Value) (base : Select) :
    shown store o.unpaged params base =
      ((refine o params base).mapError .build).bind fun s =>
        ((s.check store).mapError .store).map fun _ =>
          ⟨s.rowsOf store, s.answersOf store,
            if o.totals.enabled then some (s.answersOf store).length else none⟩ := by
  have hrefine : refine o.unpaged params base = refine o params base := rfl
  have htotals : o.unpaged.totals = o.totals := rfl
  have hwhole : ∀ s, paged o.unpaged.pagination params s = s := fun _ => rfl
  unfold shown compile Select.run Select.countAnswers Select.answers
  rw [hrefine, htotals]
  cases refine o params base with
  | error e => rfl
  | ok s => cases hcheck : s.check store <;> cases o.totals.enabled <;>
      simp [bind, Except.bind, pure, Except.pure, Except.map, hwhole, hcheck]

/-! ### Pages of one listing -/

/-- The request `q` asks for page `k` of what `params` ask for, with the same size, filters, search
and order. Options whose page parameter has the name of another one have no such request, as the
number of the page would be read for the other one as well. -/
structure AsksPage (o : Options) (params q : Entries Value) (k : Nat) : Prop where
  page : Window.readInt? (Params.value q o.pagination.pageParam) = some (k : Int)
  size : Params.value q o.pagination.sizeParam = Params.value params o.pagination.sizeParam
  filter : Params.value q o.filtering.filterParam = Params.value params o.filtering.filterParam
  search : Params.value q o.searching.searchParam = Params.value params o.searching.searchParam
  sort : Params.value q o.sorting.sortParam = Params.value params o.sorting.sortParam

/-- When the parameter of the page has a name of its own, putting a number there asks for a page. -/
theorem asksPage_put (params : Entries Value) (k : Nat)
    (hsize : o.pagination.pageParam ≠ o.pagination.sizeParam)
    (hfilter : o.pagination.pageParam ≠ o.filtering.filterParam)
    (hsearch : o.pagination.pageParam ≠ o.searching.searchParam)
    (hsort : o.pagination.pageParam ≠ o.sorting.sortParam) :
    AsksPage o params (params.put o.pagination.pageParam (.int k)) k := by
  have hother : ∀ name, o.pagination.pageParam ≠ name →
      Params.value (params.put o.pagination.pageParam (.int k)) name = Params.value params name := by
    intro name hne
    rw [Params.value, Params.value, Entries.get?_put_of_ne hne]
  refine ⟨?_, hother _ hsize, hother _ hfilter, hother _ hsearch, hother _ hsort⟩
  rw [Params.value, Entries.get?_put_self]
  rfl

/-- The request `q` asks for the same matches as `params`, whatever page, size and order. -/
structure SameMatches (o : Options) (params q : Entries Value) : Prop where
  filter : Params.value q o.filtering.filterParam = Params.value params o.filtering.filterParam
  search : Params.value q o.searching.searchParam = Params.value params o.searching.searchParam

theorem AsksPage.refine_eq {k : Nat} (hq : AsksPage o params q k) (base : Select) :
    refine o q base = refine o params base := refine_congr hq.filter hq.search hq.sort base

theorem AsksPage.size_eq {k : Nat} (hq : AsksPage o params q k) :
    (Window.ofParams o.pagination q).size = (Window.ofParams o.pagination params).size := by
  simp only [Window.ofParams, hq.size]

/-- A page that the store can reach starts where the pages before it end. -/
theorem AsksPage.offset_eq {k : Nat} (hq : AsksPage o params q k) (hk : 1 ≤ k)
    (hreach : (k - 1) * (Window.ofParams o.pagination params).size.val ≤ Window.maxOffset) :
    (Window.ofParams o.pagination q).offset =
      (k - 1) * (Window.ofParams o.pagination params).size.val := by
  set size := (Window.ofParams o.pagination params).size
  have hsize : (Window.ofParams o.pagination q).size = size := hq.size_eq
  have hle := (Window.pred_mul_le_iff size.2 k).1 hreach
  have hpage : (Window.ofParams o.pagination q).page.val = k := by
    have hof : (Window.ofParams o.pagination q).page = Window.pageOf (some (k : Int)) size := by
      rw [← hsize, ← hq.page]
      rfl
    rw [hof]
    simp only [Window.pageOf, Option.getD_some, Int.toNat_natCast]
    omega
  rw [Window.offset, hpage, hsize]

/-- Consecutive windows of one size cut a prefix into pieces. -/
theorem flatMap_windows {α : Type} (xs : List α) (size count : Nat) :
    ((List.range' 1 count).flatMap fun k => (xs.drop ((k - 1) * size)).take size) =
      xs.take (count * size) := by
  induction count with
  | zero => simp
  | succ count ih =>
    rw [List.range'_1_concat, List.flatMap_append, ih, Nat.succ_mul, List.take_add]
    simp

/-- Before a page that is not behind the last one there is room for all pages before it. -/
theorem pred_mul_lt_of_le_ceilDiv {k total size : Nat} (hsize : 1 ≤ size) (hk : 1 ≤ k)
    (h : k ≤ total ⌈/⌉ size) : (k - 1) * size < total := by
  by_contra hle
  have hdiv : total ⌈/⌉ size ≤ k - 1 := by
    rw [ceilDiv_le_iff_le_mul hsize, Nat.mul_comm]
    exact Nat.le_of_not_lt hle
  omega

/-- Every asked page is the window of its number, and runs when one page does. -/
theorem shown_asked_page (hpages : o.pagination.enabled = true) (htotals : o.totals.enabled = true)
    (hbase : base.isWindowed = false) (hs : refine o params base = .ok s)
    (hrun : shown store o params base = .ok here) {k : Nat} (hk : 1 ≤ k)
    (hreach : (k - 1) * (Window.ofParams o.pagination params).size.val ≤ Window.maxOffset)
    (hq : AsksPage o params q k) :
    shown store o q base = .ok
      ⟨((s.rowsOf store).drop ((k - 1) * (Window.ofParams o.pagination params).size.val)).take
          (Window.ofParams o.pagination params).size.val,
        ((s.answersOf store).drop ((k - 1) * (Window.ofParams o.pagination params).size.val)).take
          (Window.ofParams o.pagination params).size.val,
        some (s.answersOf store).length⟩ := by
  have hwindow : s.isWindowed = false := (refine_keeps hbase hs).2.2
  obtain ⟨hcheck, hpage, -⟩ := (shown_eq_ok_iff htotals hs).1 hrun
  have hfits := ((check_paged_iff hpages params hwindow store).1 hpage).2
  refine (shown_eq_ok_iff htotals ((hq.refine_eq base).trans hs)).2 ⟨hcheck, ?_, ?_⟩
  · rw [check_paged_iff hpages q hwindow, hq.size_eq]
    exact ⟨hcheck, hfits⟩
  · rw [rowsOf_paged hpages q hwindow, answersOf_paged hpages q hwindow, hq.size_eq,
      hq.offset_eq hk hreach]

/-- Without pagination the same listing runs and shows all rows. -/
theorem shown_unpaged (htotals : o.totals.enabled = true) (hs : refine o params base = .ok s)
    (hrun : shown store o params base = .ok here) :
    shown store o.unpaged params base =
      .ok ⟨s.rowsOf store, s.answersOf store, some (s.answersOf store).length⟩ := by
  obtain ⟨hcheck, -, -⟩ := (shown_eq_ok_iff htotals hs).1 hrun
  rw [shown_unpaged_eq, hs, htotals]
  simp [Except.bind, hcheck, Except.map]

theorem total_eq_of_sameMatches (htotals : o.totals.enabled = true)
    (hbase : base.isWindowed = false) (hs : refine o params base = .ok s)
    (hq : SameMatches o params q) {other : Shown} (hrun : shown store o q base = .ok other) :
    other.total? = some (s.answersOf store).length := by
  obtain ⟨t, ht⟩ := exists_refine_of_shown hrun
  obtain ⟨-, -, rfl⟩ := (shown_eq_ok_iff htotals ht).1 hrun
  obtain ⟨order, rfl⟩ := refine_eq_up_to_order hq.filter hq.search hbase hs ht
  have hwindow : s.isWindowed = false := (refine_keeps hbase hs).2.2
  have hcount : (Select.answersOf { s with order } store).length = (s.answersOf store).length := by
    rw [Select.length_answersOf hwindow, Select.length_answersOf (s := { s with order }) hwindow]
    rfl
  rw [hcount]

/-- The pages of a listing partition it. Every page from the first to the last runs, all of them
show the total, all but the last are full, and one after the other they show what the listing shows
without pagination. -/
theorem pages_partition (hstore : store.Counted) (hpages : o.pagination.enabled = true)
    (htotals : o.totals.enabled = true) (hbase : base.isWindowed = false)
    (hrun : shown store o params base = .ok here) :
    ∃ full, shown store o.unpaged params base = .ok full ∧
      (∀ q other, SameMatches o params q → shown store o q base = .ok other →
        other.total? = some full.answers.length) ∧
      ∃ page : Nat → Shown,
        let size := (Window.ofParams o.pagination params).size.val
        let last := full.answers.length ⌈/⌉ size
        (∀ k q, 1 ≤ k → k ≤ last → AsksPage o params q k →
          shown store o q base = .ok (page k)) ∧
        ((List.range' 1 last).flatMap fun k => (page k).answers) = full.answers ∧
        (base.model?.isSome → base.output = .records →
          ((List.range' 1 last).flatMap fun k => (page k).rows) = full.rows) ∧
        ∀ k, 1 ≤ k → k < last → (page k).answers.length = size := by
  obtain ⟨s, hs⟩ := exists_refine_of_shown hrun
  obtain ⟨hmodel, hout, hwindow⟩ := refine_keeps hbase hs
  set size := (Window.ofParams o.pagination params).size.val
  have hsize : 1 ≤ size := (Window.ofParams o.pagination params).size.2
  set answers := s.answersOf store
  set last := answers.length ⌈/⌉ size
  have hall : answers.length ≤ last * size := by
    rw [Nat.mul_comm, ← ceilDiv_le_iff_le_mul hsize]
  have hcounted : answers.length ≤ Window.maxOffset :=
    (Select.length_answersOf_le hwindow store).trans
      (max_le (Select.length_source_le hstore s) (by decide))
  refine ⟨_, shown_unpaged htotals hs hrun, fun q other hq hother =>
    total_eq_of_sameMatches htotals hbase hs hq hother, fun k =>
      ⟨((s.rowsOf store).drop ((k - 1) * size)).take size,
        (answers.drop ((k - 1) * size)).take size, some answers.length⟩, ?_, ?_, ?_, ?_⟩
  · intro k q hk hlast hq
    have hlt := pred_mul_lt_of_le_ceilDiv hsize hk hlast
    exact shown_asked_page hpages htotals hbase hs hrun hk (hlt.le.trans hcounted) hq
  · exact (flatMap_windows answers size last).trans (List.take_of_length_le hall)
  · intro hsome hrecords
    have hlength : (s.rowsOf store).length = answers.length := by
      obtain ⟨m, hm⟩ := Option.isSome_iff_exists.1 hsome
      rw [Select.length_answersOf hwindow, hout, hrecords, hmodel, hm, Select.rowsOf,
        Select.windowed_of_not_isWindowed hwindow, Select.length_sorted]
    exact (flatMap_windows (s.rowsOf store) size last).trans
      (List.take_of_length_le (hlength.trans_le hall))
  · intro k hk hlast
    have hlt := pred_mul_lt_of_le_ceilDiv hsize (Nat.le_add_left 1 k) hlast
    have hnext : k * size = (k - 1) * size + size := by
      rw [← Nat.succ_mul, Nat.succ_eq_add_one, Nat.sub_add_cancel hk]
    have hroom : k * size < answers.length := hlt
    simp only [List.length_take, List.length_drop]
    omega

/-- Posts one by one, unless a request asks for pages of two. -/
def postPages : Options where
  pagination := ⟨true, "page", "per", ⟨1, Nat.one_pos⟩, ⟨2, Nat.two_pos⟩⟩
  sorting := ⟨true, "sort", .ascending, ["id", "title"]⟩
  searching := ⟨false, "q", []⟩
  filtering := ⟨true, "filter", ["status"]⟩
  totals := ⟨true, "rows", "total"⟩

def threePosts : Store :=
  [⟨Posts.model, [⟨1, [("id", .integer 1)]⟩, ⟨2, [("id", .integer 2)]⟩, ⟨3, [("id", .integer 3)]⟩]⟩]

/-- Three posts in pages of two stand on two pages. -/
theorem pages_of_threePosts : ∃ full first second,
    shown threePosts postPages.unpaged [("per", .int 2)] (.all Posts.model) = .ok full ∧
    shown threePosts postPages [("per", .int 2), ("page", .int 1)] (.all Posts.model) =
      .ok first ∧
    shown threePosts postPages [("per", .int 2), ("page", .int 2)] (.all Posts.model) =
      .ok second ∧
    first.rows ++ second.rows = full.rows ∧ first.answers ++ second.answers = full.answers ∧
    first.answers.length = 2 ∧ first.total? = some 3 ∧ second.total? = some 3 := by
  have hstore : threePosts.Counted := by
    intro t ht
    rw [List.mem_singleton.1 ht]
    decide
  have hrun : shown threePosts postPages [("per", .int 2)] (.all Posts.model) =
      .ok ⟨_, _, some 3⟩ := rfl
  obtain ⟨full, hfull, htotal, page, hpage, hanswers, hrows, hlength⟩ :=
    pages_partition hstore rfl rfl rfl hrun
  have hasks : ∀ k : Nat, AsksPage postPages [("per", .int 2)]
      [("per", .int 2), ("page", .int k)] k := fun k =>
    asksPage_put [("per", .int 2)] k (by decide) (by decide) (by decide) (by decide)
  have hthree : full.answers.length = 3 := by
    cases hfull
    rfl
  rw [hthree] at htotal hpage hanswers hrows hlength
  have hlast : List.range' 1
      (3 ⌈/⌉ (Window.ofParams postPages.pagination [("per", .int 2)]).size.val) = [1, 2] := by
    decide
  have hfirst := hpage 1 _ (by decide) (by decide) (hasks 1)
  have hsecond := hpage 2 _ (by decide) (by decide) (hasks 2)
  refine ⟨full, page 1, page 2, hfull, hfirst, hsecond, ?_, ?_, hlength 1 (by decide) (by decide),
    htotal [("per", .int 2), ("page", .int 1)] _ ⟨rfl, rfl⟩ hfirst,
    htotal [("per", .int 2), ("page", .int 2)] _ ⟨rfl, rfl⟩ hsecond⟩
  · simpa [hlast] using hrows rfl rfl
  · simpa [hlast] using hanswers

end Listing

end TableApi
