import TableApi.Proofs.Listing.Limited
import TableApi.Proofs.Options.Merged
import TableApi.Proofs.Resource.Showable

/-! The answer of a counted listing. It carries the rows of a page and the total of all matching
rows, each under the key that the options name for it, and nothing else, as long as the two keys
differ. Options that name one key for both are accepted like others: then the total takes the place
of the rows, and the answer tells no row of any page. -/

namespace TableApi

theorem Listing.output_of_refine {o : Options} {params : Entries Value} {base s : Select}
    (hs : Listing.refine o params base = .ok s) : s.output = base.output := by
  cases hbase : base.isWindowed with
  | true => rw [Listing.eq_of_refine hbase hs]
  | false => exact (Listing.refine_keeps hbase hs).2.1

namespace Resource

variable {r : Resource} {params answer : Entries Value} {requested : Option String} {store : Store}

/-! ### Two entries -/

/-- An answer that carries listed rows and a total, each under its key, and nothing else. -/
structure Carries (r : Resource) (answer : Entries Value) (rows : List Value) (total : Nat) :
    Prop where
  rows_of : Entries.get? answer r.options.totals.rowsKey = some (.list rows)
  total_of : Entries.get? answer r.options.totals.totalKey = some (.int total)
  keys : Entries.keys answer = [r.options.totals.rowsKey, r.options.totals.totalKey]

theorem listed_of_oneKey (hkeys : r.options.totals.rowsKey = r.options.totals.totalKey)
    (rows : List Row) (total : Nat) :
    r.listed requested rows (some total) = [(r.options.totals.totalKey, .int total)] := by
  simp [listed, Entries.put, hkeys]

theorem carries_listed_iff (rows : List Row) (total : Nat) :
    r.Carries (r.listed requested rows (some total)) (r.shownRows requested rows) total ↔
      r.options.totals.rowsKey ≠ r.options.totals.totalKey := by
  constructor
  · intro h hkeys
    have hrows := h.rows_of
    rw [hkeys, h.total_of] at hrows
    cases hrows
  · intro hkeys
    constructor <;> simp [listed, Entries.put, Entries.get?_cons, Entries.keys, hkeys]

/-! ### What is listed -/

/-- What a counted listing tells of a store: what it shows for its parameters, and what it shows for
them without pagination, which are all rows that match. Unless it starts from a statement with a
window of its own, these are the rows of the table that satisfy all clauses, and the page is a window
on them. -/
structure Counts (r : Resource) (params : Entries Value) (store : Store)
    (here full : Listing.Shown) : Prop where
  page : Listing.shown store r.options params r.base = .ok here
  unpaged : Listing.shown store r.options.unpaged params r.base = .ok full
  total : here.total? = some full.answers.length
  records : r.base.model?.isSome = true → r.base.output = .records →
    full.answers.length = full.rows.length
  matching : r.base.isWindowed = false → ∃ s, Listing.refine r.options params r.base = .ok s ∧
    full.rows.Perm (s.matching (s.source store))
  window : r.base.isWindowed = false → here.rows = if r.options.pagination.enabled then
      (full.rows.drop (Window.ofParams r.options.pagination params).offset).take
        (Window.ofParams r.options.pagination params).size.val
    else full.rows

/-- A listing is answered with what is shown of it. -/
theorem exists_counts_of_index (htotals : r.options.totals.enabled = true)
    (h : r.index params requested store = .ok answer) : ∃ here full, r.Counts params store here full ∧
      answer = r.listed requested here.rows (some full.answers.length) := by
  obtain ⟨l, hl, hpage, rfl⟩ := index_eq_ok_iff.1 h
  obtain ⟨s, hs, -⟩ := Listing.exists_refine_of_compile hl
  obtain ⟨hcheck, rfl⟩ := (Listing.compile_eq_ok_iff htotals hs).1 hl
  have hshown := (Listing.shown_eq_ok_iff htotals hs).2 ⟨hcheck, hpage, rfl⟩
  refine ⟨_, _, ⟨hshown, Listing.shown_unpaged htotals hs hshown, rfl, ?_, ?_, ?_⟩, rfl⟩
  · intro hmodel hrecords
    rw [← Listing.model?_of_refine hs] at hmodel
    rw [← Listing.output_of_refine hs] at hrecords
    exact (Select.length_rowsOf_eq hmodel hrecords store).symm
  · intro hbase
    exact ⟨s, hs, Select.rowsOf_perm (Listing.refine_keeps hbase hs).2.2 store⟩
  · intro hbase
    cases hpages : r.options.pagination.enabled with
    | true => exact Listing.rowsOf_paged hpages params (Listing.refine_keeps hbase hs).2.2 store
    | false => simp [Listing.paged, hpages]

/-- The answer of a counted listing carries the rows of the page and the number of matching rows,
each under its key, and nothing else, exactly when the keys differ. With one key for both it is the
number alone. -/
theorem index_carries_iff (htotals : r.options.totals.enabled = true)
    (h : r.index params requested store = .ok answer) :
    ∃ here full, r.Counts params store here full ∧
      (r.Carries answer (r.shownRows requested here.rows) full.answers.length ↔
        r.options.totals.rowsKey ≠ r.options.totals.totalKey) ∧
      (r.options.totals.rowsKey = r.options.totals.totalKey →
        answer = [(r.options.totals.totalKey, .int full.answers.length)]) := by
  obtain ⟨here, full, hcounts, rfl⟩ := exists_counts_of_index htotals h
  exact ⟨here, full, hcounts, carries_listed_iff here.rows _,
    fun hkeys => listed_of_oneKey hkeys here.rows _⟩

/-- Of three posts in pages of two, the first page and the number of all are told. -/
theorem carries_threePosts : ∃ registry r answer,
    Registry.register [] Posts.registration = .ok (registry, r) ∧
      r.index [("size", .int 2)] none Listing.threePosts = .ok answer ∧
      ∃ here full, r.Counts [("size", .int 2)] Listing.threePosts here full ∧
        r.Carries answer (r.shownRows none here.rows) full.answers.length := by
  have hfacts : (Registry.register [] Posts.registration).toOption.map (fun p =>
      p.2.options.totals.enabled &&
        decide (p.2.options.totals.rowsKey ≠ p.2.options.totals.totalKey) &&
        (p.2.index [("size", .int 2)] none Listing.threePosts).toOption.isSome) = some true := by
    decide +kernel
  obtain ⟨⟨registry, r⟩, hregister, hfacts⟩ := exists_of_toOption_map hfacts
  simp only [Bool.and_eq_true, decide_eq_true_eq] at hfacts
  obtain ⟨⟨htotals, hkeys⟩, hanswered⟩ := hfacts
  obtain ⟨answer, hanswer⟩ := exists_of_isSome_toOption hanswered
  obtain ⟨here, full, hcounts, hcarries, -⟩ := index_carries_iff htotals hanswer
  exact ⟨registry, r, answer, hregister, hanswer, here, full, hcounts, hcarries.2 hkeys⟩

/-- The posts, with one key for the rows and for their number. -/
def dataPosts : Registration :=
  { Posts.registration with
    options := .map [("meta", .map [("rows_key", .text "data"), ("total_key", .text "data")])] }

/-- Options that name one key for both are accepted, and three posts listed with them are answered
with their number alone. -/
theorem not_carries_dataPosts : ∃ registry r,
    Registry.register [] dataPosts = .ok (registry, r) ∧
      Options.resolve dataPosts.options = .ok r.options ∧ r.options.totals.enabled = true ∧
      r.index [] none Listing.threePosts = .ok [("data", .int 3)] ∧
      ∀ rows total, ¬ r.Carries [("data", .int 3)] rows total := by
  have hfacts : (Registry.register [] dataPosts).toOption.map (fun p =>
      decide (p.2.options.totals = ⟨true, "data", "data"⟩) &&
        (p.2.index [] none Listing.threePosts).toOption.isSome &&
        decide ((Listing.shown Listing.threePosts p.2.options [] p.2.base).toOption.map
          Listing.Shown.total? = some (some 3))) = some true := by
    decide +kernel
  obtain ⟨⟨registry, r⟩, hregister, hfacts⟩ := exists_of_toOption_map hfacts
  simp only [Bool.and_eq_true, decide_eq_true_eq] at hfacts
  obtain ⟨⟨hdata, hanswered⟩, hthree⟩ := hfacts
  obtain ⟨name, hdefine⟩ := Registry.exists_define_of_register hregister
  obtain ⟨answer, hanswer⟩ := exists_of_isSome_toOption hanswered
  have htotals : r.options.totals.enabled = true := by rw [hdata]
  have hkeys : r.options.totals.rowsKey = r.options.totals.totalKey := by rw [hdata]
  obtain ⟨here, full, hcounts, rfl⟩ := exists_counts_of_index htotals hanswer
  rw [hcounts.page] at hthree
  have hlength : full.answers.length = 3 :=
    Option.some.inj (hcounts.total.symm.trans (Option.some.inj hthree))
  rw [listed_of_oneKey hkeys, hdata, hlength] at hanswer
  refine ⟨registry, r, hregister, (Registry.defines_of_define hdefine).options, htotals, hanswer,
    fun others total hcarries => ?_⟩
  have hrows := hcarries.rows_of
  rw [hdata] at hrows
  cases hrows

end Resource

end TableApi
