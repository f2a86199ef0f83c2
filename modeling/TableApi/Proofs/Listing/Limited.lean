import TableApi.Proofs.Listing.Pages

/-! Listings over a statement that brings a LIMIT or OFFSET of its own. Such a statement takes
neither filters nor an order, so what compiles starts from the statement as it is, and the total is
the count of the answers inside its window. A page puts a window of its own in the place of that
window: the pages go through everything that the statement would give without its window, and stay
inside it only when it leaves nothing out. -/

namespace TableApi

namespace Select

def unwindowed (s : Select) : Select := { s with limit? := none, offset? := none }

/-- The statement with the window of a page in the place of its own. -/
def cut (s : Select) (size page : Nat) : Select :=
  { s with limit? := some size, offset? := some ((page - 1) * size) }

/-- The window of the statement leaves none of `n` answers out. -/
def Spans (s : Select) (n : Nat) : Prop :=
  n = 0 ∨ s.offset?.getD 0 = 0 ∧ ∀ limit, s.limit? = some limit → n ≤ limit

@[simp] theorem unwindowed_cut (s : Select) (size page : Nat) :
    (s.cut size page).unwindowed = s.unwindowed := rfl

@[simp] theorem isWindowed_unwindowed (s : Select) : s.unwindowed.isWindowed = false := rfl

variable {α β : Type}

theorem windowed_map (s : Select) (f : α → β) (xs : List α) :
    s.windowed (xs.map f) = (s.windowed xs).map f := by
  unfold windowed
  cases s.limit? <;> simp [List.map_drop, List.map_take]

theorem windowed_sublist (s : Select) (xs : List α) : (s.windowed xs).Sublist xs := by
  unfold windowed
  cases s.limit? with
  | none => exact List.drop_sublist _ xs
  | some n => exact (List.take_sublist n _).trans (List.drop_sublist _ xs)

theorem windowed_cut (s : Select) (size page : Nat) (xs : List α) :
    (s.cut size page).windowed xs = (xs.drop ((page - 1) * size)).take size := rfl

theorem length_windowed_eq_iff (s : Select) (xs : List α) :
    (s.windowed xs).length = xs.length ↔ s.Spans xs.length := by
  unfold windowed Spans
  cases s.limit? with
  | none =>
    simp only [List.length_drop, reduceCtorEq, false_imp_iff, implies_true, and_true]
    omega
  | some n =>
    simp only [List.length_take, List.length_drop, Option.some.injEq, forall_eq']
    omega

theorem windowed_eq_self_iff (s : Select) (xs : List α) :
    s.windowed xs = xs ↔ s.Spans xs.length := by
  rw [← length_windowed_eq_iff]
  exact ⟨congrArg List.length, (s.windowed_sublist xs).eq_of_length⟩

theorem rowsOf_eq_windowed (s : Select) (store : Store) :
    s.rowsOf store = s.windowed (s.unwindowed.rowsOf store) := by
  rw [rowsOf, rowsOf, windowed_of_not_isWindowed s.isWindowed_unwindowed]
  rfl

theorem answersOf_eq_windowed (s : Select) (store : Store) :
    s.answersOf store = s.windowed (s.unwindowed.answersOf store) := by
  have hrows : s.unwindowed.sorted (s.unwindowed.matching (s.unwindowed.source store)) =
      s.sorted (s.matching (s.source store)) := rfl
  have houtput : s.unwindowed.output = s.output := rfl
  have hmodel : s.unwindowed.model? = s.model? := rfl
  have hnil : s.windowed ([] : List (Entries Value)) = [] :=
    List.sublist_nil.1 (s.windowed_sublist [])
  unfold answersOf
  simp only [windowed_of_not_isWindowed s.isWindowed_unwindowed, hrows, houtput, hmodel]
  cases s.output <;> cases s.model? <;> simp only [windowed_map, hnil]

theorem answersOf_cut (s : Select) (size page : Nat) (store : Store) :
    (s.cut size page).answersOf store =
      ((s.unwindowed.answersOf store).drop ((page - 1) * size)).take size := by
  rw [answersOf_eq_windowed, unwindowed_cut, windowed_cut]

end Select

namespace Listing

variable {store : Store} {o : Options} {params q : Entries Value} {base s : Select} {l : Listing}

/-! ### What a window refuses -/

theorem eq_of_filtered {o : Options.Filtering} (h : base.isWindowed = true)
    (hs : filtered o params base = .ok s) : s = base := by
  unfold filtered at hs
  cases hread : Condition.readAll o.fields (Params.value params o.filterParam) with
  | nil =>
    rw [hread] at hs
    exact (Except.ok.inj hs).symm
  | cons c rest =>
    rw [hread, List.foldlM_cons] at hs
    obtain ⟨next, hnext, -⟩ := bind_eq_ok_iff.1 hs
    obtain ⟨clause, -, hadded⟩ := bind_eq_ok_iff.1 hnext
    rw [addClause, if_pos h] at hadded
    cases hadded

theorem eq_of_searched {o : Options.Searching} (h : base.isWindowed = true)
    (hs : searched o params base = .ok s) : s = base := by
  unfold searched at hs
  split at hs
  · exact (Except.ok.inj hs).symm
  · split at hs
    · exact (Except.ok.inj hs).symm
    · rw [addClause, if_pos h] at hs
      cases hs

theorem eq_of_ordered {o : Options.Sorting} (h : base.isWindowed = true)
    (hs : ordered o params base = .ok s) : s = base := by
  unfold ordered at hs
  split at hs
  · exact (Except.ok.inj hs).symm
  · rw [if_pos h] at hs
    cases hs

/-- A statement with a window is refined only by leaving it as it is. -/
theorem eq_of_refine (h : base.isWindowed = true) (hs : refine o params base = .ok s) :
    s = base := by
  have hstage {on : Bool} {stage : Select → Except BuildError Select}
      (hkeeps : ∀ t, stage base = .ok t → t = base) {t : Select}
      (ht : (if on then stage base else .ok base) = .ok t) : t = base := by
    cases on with
    | true => exact hkeeps t ht
    | false => exact (Except.ok.inj ht).symm
  rw [refine_eq_bind] at hs
  obtain ⟨s₁, hfiltered, hrest⟩ := bind_eq_ok_iff.1 hs
  obtain ⟨s₂, hsearched, hordered⟩ := bind_eq_ok_iff.1 hrest
  obtain rfl := hstage (fun _ => eq_of_filtered h) hfiltered
  obtain rfl := hstage (fun _ => eq_of_searched h) hsearched
  exact hstage (fun _ => eq_of_ordered h) hordered

theorem compile_windowed (h : base.isWindowed = true) (hl : compile store o params base = .ok l) :
    refine o params base = .ok base ∧ l.page = paged o.pagination params base ∧
      (o.totals.enabled = true → l.total? = some (base.answersOf store).length) := by
  obtain ⟨s, hs, hpage⟩ := exists_refine_of_compile hl
  obtain rfl := eq_of_refine h hs
  refine ⟨hs, hpage, fun htotals => ?_⟩
  obtain ⟨-, rfl⟩ := (compile_eq_ok_iff htotals hs).1 hl
  rfl

/-- A request that refines the statement alike compiles too, with the same total. -/
theorem compile_of_refine_eq (hq : refine o q base = refine o params base)
    (hs : refine o params base = .ok s) (hl : compile store o params base = .ok l) :
    compile store o q base = .ok ⟨paged o.pagination q s, l.total?⟩ := by
  obtain ⟨_, hrefined, hcount⟩ := bind_eq_ok_iff.1 hl
  rw [hs, mapError_ok] at hrefined
  obtain rfl := Except.ok.inj hrefined
  unfold compile
  rw [hq, hs, mapError_ok]
  split at hcount
  · next htotals =>
    obtain ⟨total?, htotal, hlisting⟩ := bind_eq_ok_iff.1 hcount
    cases hlisting
    exact bind_eq_ok_iff.2 ⟨_, rfl, by rw [if_pos htotals]; exact bind_eq_ok_iff.2 ⟨_, htotal, rfl⟩⟩
  · next htotals =>
    cases hcount
    exact bind_eq_ok_iff.2 ⟨_, rfl, by rw [if_neg htotals]; rfl⟩

/-! ### The pages -/

theorem paged_eq_cut (h : o.pagination.enabled = true) (q : Entries Value) (s : Select) :
    paged o.pagination q s = s.cut (Window.ofParams o.pagination q).size.val
      (Window.ofParams o.pagination q).page.val := by
  rw [paged, if_pos h]
  rfl

/-- The page that is asked for, or the last one that the store can reach. -/
theorem AsksPage.page_eq {k : Nat} (hq : AsksPage o params q k) (hk : 1 ≤ k) :
    (Window.ofParams o.pagination q).page.val =
      min k (Window.maxOffset / (Window.ofParams o.pagination params).size.val + 1) := by
  have hdenoted : Window.denotedPage (Params.value q o.pagination.pageParam) = k := by
    rw [Window.denotedPage, hq.page]
    simp only [Int.toNat_natCast]
    rw [if_pos (by omega)]
  have hpage := Window.val_pageOf (Params.value q o.pagination.pageParam)
    (Window.ofParams o.pagination q).size
  rw [hdenoted, hq.size_eq] at hpage
  rw [← hpage, ← hq.size_eq]
  rfl

/-- The pages of a size stay inside a statement: they show answers, and rows, of it only, and up to
a page behind which there is nothing they show as many answers as it has. -/
structure IsBounded (store : Store) (base : Select) (size : Nat) : Prop where
  answers : ∀ k, 1 ≤ k → ∀ a ∈ (base.cut size k).answersOf store, a ∈ base.answersOf store
  rows : base.model?.isSome → base.output = .records →
    ∀ k, 1 ≤ k → ∀ row ∈ (base.cut size k).rowsOf store, row ∈ base.rowsOf store
  total : ∀ last, (∀ k, last < k → (base.cut size k).answersOf store = []) →
    ((List.range' 1 last).flatMap fun k => (base.cut size k).answersOf store).length =
      (base.answersOf store).length

theorem answers_of_pages (base : Select) (size last : Nat) (store : Store) :
    ((List.range' 1 last).flatMap fun k => (base.cut size k).answersOf store) =
      (base.unwindowed.answersOf store).take (last * size) := by
  simp only [Select.answersOf_cut]
  exact flatMap_windows _ size last

/-- The pages stay inside a statement exactly when its window leaves nothing out. -/
theorem isBounded_iff_spans {size : Nat} (hsize : 1 ≤ size) :
    IsBounded store base size ↔ base.Spans (base.unwindowed.answersOf store).length := by
  set all := base.unwindowed.answersOf store
  have hbase : base.answersOf store = base.windowed all := base.answersOf_eq_windowed store
  constructor
  · intro hbounded
    have hall : all.length ≤ all.length * size := Nat.le_mul_of_pos_right _ hsize
    have hbehind : ∀ k, all.length < k → (base.cut size k).answersOf store = [] := by
      intro k hk
      have hpast : all.length ≤ (k - 1) * size :=
        (Nat.le_sub_one_of_lt hk).trans (Nat.le_mul_of_pos_right _ hsize)
      rw [Select.answersOf_cut, List.drop_eq_nil_of_le hpast, List.take_nil]
    have htotal := hbounded.total all.length hbehind
    rw [answers_of_pages, List.take_of_length_le hall, hbase] at htotal
    exact (base.length_windowed_eq_iff all).1 htotal.symm
  · intro hspans
    have hwhole : base.answersOf store = all := by
      rw [hbase, Select.windowed_eq_self_iff]
      exact hspans
    refine ⟨fun k _ a ha => ?_, fun hmodel hrecords k _ row hrow => ?_, fun last hlast => ?_⟩
    · rw [Select.answersOf_cut] at ha
      rw [hwhole]
      exact List.mem_of_mem_drop (List.mem_of_mem_take ha)
    · have hlength : (base.unwindowed.rowsOf store).length = all.length :=
        Select.length_rowsOf_eq (s := base.unwindowed) hmodel hrecords store
      rw [← hlength, ← Select.windowed_eq_self_iff, ← Select.rowsOf_eq_windowed] at hspans
      rw [hspans]
      rw [Select.rowsOf_eq_windowed] at hrow
      exact (Select.windowed_sublist _ _).subset hrow
    · have hpast : all.length ≤ last * size := by
        have hempty := hlast (last + 1) (Nat.lt_succ_self last)
        rw [Select.answersOf_cut, List.take_eq_nil_iff, List.drop_eq_nil_iff] at hempty
        rcases hempty with hzero | hpast
        · omega
        · exact hpast
      rw [answers_of_pages, List.take_of_length_le hpast, hwhole]

/-- Pages take the place of a window that a statement brings. Its total counts the answers inside
the window, and without pagination it is listed as it is; but every page is cut out of all that the
statement gives without its window, so that the pages stay inside it only when its window leaves
nothing out. -/
theorem pages_replace_window (hbase : base.isWindowed = true)
    (hl : compile store o params base = .ok l) :
    (o.totals.enabled = true → l.total? = some (base.answersOf store).length) ∧
      (o.pagination.enabled = false → l.page = base) ∧
      (o.pagination.enabled = true →
        let size := (Window.ofParams o.pagination params).size.val
        (∀ k q, 1 ≤ k → AsksPage o params q k → compile store o q base =
          .ok ⟨base.cut size (min k (Window.maxOffset / size + 1)), l.total?⟩) ∧
        (∀ k, (base.cut size k).answersOf store =
          ((base.unwindowed.answersOf store).drop ((k - 1) * size)).take size) ∧
        (IsBounded store base size ↔
          base.Spans (base.unwindowed.answersOf store).length)) := by
  obtain ⟨hs, hpage, htotal⟩ := compile_windowed hbase hl
  refine ⟨htotal, fun hoff => ?_, fun hon => ⟨fun k q hk hq => ?_, fun k => ?_, ?_⟩⟩
  · rw [hpage, paged, hoff]
    rfl
  · rw [compile_of_refine_eq (hq.refine_eq base) hs hl, paged_eq_cut hon, hq.page_eq hk, hq.size_eq]
  · exact base.answersOf_cut _ k store
  · exact isBounded_iff_spans (Window.ofParams o.pagination params).size.2

def firstPost : Select := { Select.all Posts.model with limit? := some 1 }

/-- Over the first post alone a page of two shows two of three posts, of which it is to be one. -/
theorem page_leaves_firstPost : ∃ l,
    compile threePosts postPages [("per", .int 2)] firstPost = .ok l ∧ l.total? = some 1 ∧
      (l.page.answersOf threePosts).length = 2 ∧
        ∃ row ∈ l.page.rowsOf threePosts, row ∉ firstPost.rowsOf threePosts :=
  ⟨⟨firstPost.cut 2 1, some 1⟩, rfl, rfl, rfl, ⟨2, [("id", .integer 2)]⟩, by decide, by decide⟩

/-- The second page over the first post shows the third one. -/
theorem secondPage_of_firstPost : firstPost.isWindowed = true ∧
    (∃ l, compile threePosts postPages [("per", .int 2)] firstPost = .ok l ∧ l.total? = some 1) ∧
    compile threePosts postPages [("per", .int 2), ("page", .int 2)] firstPost =
      .ok ⟨firstPost.cut 2 2, some 1⟩ ∧
    ¬ IsBounded threePosts firstPost 2 := by
  have hl : compile threePosts postPages [("per", .int 2)] firstPost =
      .ok ⟨firstPost.cut 2 1, some 1⟩ := rfl
  obtain ⟨-, -, hpages⟩ := pages_replace_window rfl hl
  obtain ⟨hcompile, -, hbounded⟩ := hpages rfl
  have hasks : AsksPage postPages [("per", .int 2)] [("per", .int 2), ("page", .int 2)] 2 :=
    asksPage_put [("per", .int 2)] 2 (by decide) (by decide) (by decide) (by decide)
  refine ⟨rfl, ⟨_, hl, rfl⟩, hcompile 2 _ (by decide) hasks, fun h => ?_⟩
  rcases hbounded.1 h with hnone | ⟨-, hlimit⟩
  · cases hnone
  · exact absurd (hlimit 1 rfl) (by decide)

end Listing

end TableApi
