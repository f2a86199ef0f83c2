import Mathlib
import TableApi.Proofs.Listing.FilteredRows
import TableApi.Proofs.Listing.SortKeys

/-! What a sort text does to a listing. It changes the order of the rows and nothing else: the
listing with the text fails when the listing without it does, and otherwise shows the same rows,
sorted by the keys of the text, and the same total. Pieces of the text that ask for nothing can be
left out. Of the store it is assumed that rows without an order come in a fixed one and that sorting
is stable on it; how ties stand hangs on that, and nothing else does. -/

namespace TableApi.Listing

open Select

variable {store : Store} {o : Options} {params q : Entries Value} {base : Select}

def unsorted (o : Options) (params : Entries Value) : Entries Value :=
  params.filter fun entry => entry.1 ≠ o.sorting.sortParam

/-- What a listing shows in the order of keys, beside what it shows without them: the rows stably
sorted, as answers the records of the rows, and the same total. -/
structure IsSorted (keys : List SortKey) (base : Select) (plain here : Shown) : Prop where
  rows : IsStableSort (SortKey.Precedes keys) (SortKey.Tied keys) plain.rows here.rows
  records : ∀ m, base.model? = some m → base.output = .records →
    plain.answers = (plain.rows.map fun r => fieldValues m r m.fields) ∧
      here.answers = here.rows.map fun r => fieldValues m r m.fields
  total : here.total? = plain.total?

/-- The rows that a listing may show, in whatever order the store gives those that it need not tell
apart. -/
def MayShow (store : Store) (o : Options) (params : Entries Value) (base : Select)
    (rows : List Row) : Prop :=
  ∃ l, compile store o params base = .ok l ∧ l.page.MayGive store rows

/-- What a listing shows is what it may show. -/
theorem mayShow_of_shown {here : Shown} (h : shown store o params base = .ok here) :
    MayShow store o params base here.rows := by
  obtain ⟨l, hl, h⟩ := bind_eq_ok_iff.1 h
  obtain ⟨rows, hrows, h⟩ := bind_eq_ok_iff.1 h
  obtain ⟨answers, -, h⟩ := bind_eq_ok_iff.1 h
  obtain ⟨-, rfl⟩ := run_eq_ok_iff.1 (mapError_eq_ok_iff.1 hrows)
  rw [← Except.ok.inj h]
  exact ⟨l, hl, l.page.mayGive_rowsOf store⟩

theorem of_mayShow_unpaged {rows : List Row} (h : MayShow store o.unpaged params base rows) :
    ∃ s, refine o params base = .ok s ∧ s.MayGive store rows := by
  obtain ⟨l, hl, hgives⟩ := h
  obtain ⟨s, hs, hpage⟩ := exists_refine_of_compile hl
  rw [hpage] at hgives
  exact ⟨s, hs, hgives⟩

/-! ### Parameters -/

theorem value_unsorted_of_ne {name : String} (h : name ≠ o.sorting.sortParam) :
    Params.value (unsorted o params) name = Params.value params name := by
  unfold Params.value unsorted
  congr 1
  induction params with
  | nil => rfl
  | cons entry rest ih =>
    obtain ⟨k, v⟩ := entry
    rw [List.filter_cons, Entries.get?_cons]
    by_cases hk : k = o.sorting.sortParam
    · rw [if_neg (by simp [hk]), if_neg (hk ▸ h.symm), ih]
    · rw [if_pos (by simp [hk]), Entries.get?_cons, ih]

theorem value_unsorted_self : Params.value (unsorted o params) o.sorting.sortParam = .null := by
  have hnone : (unsorted o params).get? o.sorting.sortParam = none := by
    rw [Entries.get?_eq_none_iff, Entries.keys, List.mem_map]
    rintro ⟨entry, hentry, hkey⟩
    simpa [hkey] using (List.mem_filter.1 hentry).2
  rw [Params.value, hnone, Option.getD_none]

/-- The parameters `q` say the same as `params` but for the order, for which neither has a
mapping. -/
structure SameButOrder (o : Options) (params q : Entries Value) : Prop where
  other : ∀ name, name ≠ o.sorting.sortParam → Params.value q name = Params.value params name
  notMap : (Params.value params o.sorting.sortParam).isMap = false
  notMap' : (Params.value q o.sorting.sortParam).isMap = false

theorem sameButOrder_unsorted {raw : String}
    (htext : Params.value params o.sorting.sortParam = .text raw) :
    SameButOrder o params (unsorted o params) where
  other _ := value_unsorted_of_ne
  notMap := by
    rw [htext]
    rfl
  notMap' := by
    rw [value_unsorted_self]
    rfl

theorem sameButOrder_put {raw : String}
    (htext : Params.value params o.sorting.sortParam = .text raw) (text : String) :
    SameButOrder o params (params.put o.sorting.sortParam (.text text)) where
  other name hname := by rw [Params.value, Params.value, Entries.get?_put_of_ne hname.symm]
  notMap := by
    rw [htext]
    rfl
  notMap' := by
    rw [Params.value, Entries.get?_put_self]
    rfl

theorem SameButOrder.conditions_eq (h : SameButOrder o params q) :
    conditions o q = conditions o params := by
  have hnone : ∀ {v : Value}, v.isMap = false → Condition.readAll o.filtering.fields v = [] := by
    intro v hv
    cases v <;> first | rfl | cases hv
  unfold conditions
  by_cases hname : o.filtering.filterParam = o.sorting.sortParam
  · rw [hname, hnone h.notMap, hnone h.notMap']
  · rw [h.other _ hname]

theorem SameButOrder.searchClauses_eq (h : SameButOrder o params q)
    (hown : o.searching.enabled = true → o.searching.searchParam ≠ o.sorting.sortParam)
    (model? : Option Model) : searchClauses o q model? = searchClauses o params model? := by
  unfold searchClauses
  split
  · next hon => rw [searchText?, searchText?, h.other _ (hown hon)]
  · rfl

theorem SameButOrder.refine_eq (h : SameButOrder o params q)
    (hown : o.searching.enabled = true → o.searching.searchParam ≠ o.sorting.sortParam)
    (hbase : base.isWindowed = false) :
    refine o q base =
      ((conditions o params).mapM (clauseOfCondition base.model?)).map fun clauses =>
        extended base (clauses ++ searchClauses o params base.model?)
          (orderTerms o q base.model?) := by
  rw [Listing.refine_eq o q hbase, h.conditions_eq, h.searchClauses_eq hown]

/-! ### Keys -/

def sortKeys (o : Options) (model? : Option Model) (raw : String) : List SortKey :=
  SortKey.ofPieces o.sorting model? (SortKey.pieces raw)

section Keys

variable {raw : String} {model? : Option Model} (hon : o.sorting.enabled = true)
  (hmapped : ∀ field ∈ o.sorting.allowed, (model?.bind (·.column? field)).isSome)
include hon hmapped

theorem orderTerms_of_text (htext : Params.value q o.sorting.sortParam = .text raw) :
    orderTerms o q model? = (sortKeys o model? raw).map SortKey.toOrdered := by
  rw [orderTerms, if_pos hon, SortKey.sortTerms_eq hmapped htext, sortKeys]

end Keys

theorem orderTerms_unsorted (model? : Option Model) :
    orderTerms o (unsorted o params) model? = [] := by
  unfold orderTerms sortTerms
  rw [value_unsorted_self]
  split <;> rfl

theorem check_extended_order (s : Select) (clauses : List Clause) (keys : List SortKey)
    (store : Store) : (extended s clauses (keys.map SortKey.toOrdered)).check store =
      (extended s clauses []).check store := by
  have hname : (extended s clauses (keys.map SortKey.toOrdered)).unknownName? =
      (extended s clauses []).unknownName? := by
    unfold unknownName? extended
    rw [List.append_nil, List.map_append, ← List.append_assoc, List.findSome?_append]
    refine Option.or_eq_left_of_none (List.findSome?_eq_none_iff.2 fun t ht => ?_)
    obtain ⟨ordered, hordered, rfl⟩ := List.mem_map.1 ht
    obtain ⟨k, -, rfl⟩ := List.mem_map.1 hordered
    rfl
  unfold check
  rw [hname]
  rfl

/-- A statement without an order of its own gives its rows stably sorted by keys. -/
theorem isStableSort_rowsOf (hbase : base.isWindowed = false) (horder : base.order = [])
    (clauses : List Clause) (keys : List SortKey) (store : Store) :
    IsStableSort (SortKey.Precedes keys) (SortKey.Tied keys)
      ((extended base clauses []).rowsOf store)
      ((extended base clauses (keys.map SortKey.toOrdered)).rowsOf store) := by
  set sorting := extended base clauses (keys.map SortKey.toOrdered)
  have hkeys : sorting.order = keys.map SortKey.toOrdered := by
    simp [sorting, extended, horder]
  have hplain : (extended base clauses []).rowsOf store =
      sorting.matching (sorting.source store) := by
    rw [rowsOf, windowed_of_not_isWindowed (by simpa using hbase), sorted,
      if_pos (by simp [extended, horder])]
    rfl
  have hsorted := isStableSort_sorted sorting (sorting.matching (sorting.source store))
  rw [hplain, rowsOf, windowed_of_not_isWindowed (by simpa [sorting] using hbase)]
  rw [hkeys] at hsorted
  exact hsorted.congr (SortKey.rowOrder_eq_lt_iff keys) (SortKey.rowOrder_eq_eq_iff keys)

theorem answersOf_records {s : Select} {m : Model} (hmodel : s.model? = some m)
    (hrecords : s.output = .records) (store : Store) :
    s.answersOf store = (s.rowsOf store).map fun r => fieldValues m r m.fields := by
  unfold answersOf
  rw [hrecords, hmodel]
  rfl

theorem isSorted_extended (hbase : base.isWindowed = false) (horder : base.order = [])
    (clauses : List Clause) (keys : List SortKey) (store : Store) (totals : Bool) :
    let shows (s : Select) : Shown := ⟨s.rowsOf store, s.answersOf store,
      if totals then some (s.answersOf store).length else none⟩
    IsSorted keys base (shows (extended base clauses []))
      (shows (extended base clauses (keys.map SortKey.toOrdered))) where
  rows := isStableSort_rowsOf hbase horder clauses keys store
  records _ hmodel hrecords :=
    ⟨answersOf_records (s := extended base clauses []) hmodel hrecords store,
      answersOf_records (s := extended base clauses _) hmodel hrecords store⟩
  total := by
    dsimp only
    rw [length_answersOf (by simpa using hbase), length_answersOf (by simpa using hbase)]
    rfl

section Text

variable {raw : String} (hon : o.sorting.enabled = true)
  (hmapped : ∀ field ∈ o.sorting.allowed, (base.model?.bind (·.column? field)).isSome)
  (hown : o.searching.enabled = true → o.searching.searchParam ≠ o.sorting.sortParam)
  (hbase : base.isWindowed = false)
  (htext : Params.value params o.sorting.sortParam = .text raw)
include hon hmapped hown hbase htext

/-- With a sort text a listing fails like the listing without it, or shows the same in order. -/
theorem failed_or_isSorted (horder : base.order = []) :
    (∃ e, shown store o.unpaged (unsorted o params) base = .error e ∧
        shown store o.unpaged params base = .error e) ∨
      ∃ plain here, shown store o.unpaged (unsorted o params) base = .ok plain ∧
        shown store o.unpaged params base = .ok here ∧
          IsSorted (sortKeys o base.model? raw) base plain here := by
  have hplain := (sameButOrder_unsorted htext).refine_eq hown hbase
  rw [orderTerms_unsorted] at hplain
  have hhere := Listing.refine_eq o params hbase
  rw [orderTerms_of_text hon hmapped htext] at hhere
  rw [shown_unpaged_eq, shown_unpaged_eq, hplain, hhere]
  cases (conditions o params).mapM (clauseOfCondition base.model?) with
  | error e => exact .inl ⟨.build e, rfl, rfl⟩
  | ok clauses =>
    simp only [Except.map, Except.bind, mapError_ok, check_extended_order]
    cases (extended base (clauses ++ searchClauses o params base.model?) []).check store with
    | error e => exact .inl ⟨.store e, rfl, rfl⟩
    | ok _ => exact .inr ⟨_, _, rfl, rfl, isSorted_extended hbase horder _ _ store _⟩

/-- Whatever a store does with ties, the rows with a sort text are those without it, and the keys of
the text order them. -/
theorem perm_of_mayShow (horder : base.order = []) {before after : List Row}
    (hbefore : MayShow store o.unpaged (unsorted o params) base before)
    (hafter : MayShow store o.unpaged params base after) : after.Perm before ∧
      after.Pairwise fun a b => ¬ SortKey.Precedes (sortKeys o base.model? raw) b a := by
  obtain ⟨s, hs, plain, hplain, -, rfl⟩ := of_mayShow_unpaged hbefore
  obtain ⟨s', hs', arranged, harranged, hsorted, rfl⟩ := of_mayShow_unpaged hafter
  rw [(sameButOrder_unsorted htext).refine_eq hown hbase, orderTerms_unsorted] at hs
  rw [Listing.refine_eq o params hbase, orderTerms_of_text hon hmapped htext] at hs'
  cases hclauses : (conditions o params).mapM (clauseOfCondition base.model?) with
  | error e =>
    rw [hclauses] at hs
    cases hs
  | ok clauses =>
    rw [hclauses] at hs hs'
    cases hs
    cases hs'
    rw [windowed_of_not_isWindowed (by simpa using hbase),
      windowed_of_not_isWindowed (by simpa using hbase)]
    refine ⟨harranged.trans hplain.symm, hsorted.imp fun hnot hprecedes => hnot ?_⟩
    rw [show (extended base _ _).order = (sortKeys o base.model? raw).map SortKey.toOrdered by
      simp [extended, horder]]
    exact (SortKey.rowOrder_eq_lt_iff _ _ _).2 hprecedes

/-- Leaving out pieces that ask for nothing changes nothing. -/
theorem shown_of_kept {kept : List (List Char)}
    (hkept : Relation.ReflTransGen (SortKey.Drops o.sorting base.model?)
      (SortKey.pieces raw) kept) :
    shown store o.unpaged (params.put o.sorting.sortParam
        (.text (String.ofList ([','].intercalate kept)))) base =
      shown store o.unpaged params base := by
  set text := String.ofList ([','].intercalate kept)
  have hput : Params.value (params.put o.sorting.sortParam (.text text)) o.sorting.sortParam =
      .text text := by
    rw [Params.value, Entries.get?_put_self]
    rfl
  have hkeys : sortKeys o base.model? text = sortKeys o base.model? raw :=
    SortKey.ofPieces_intercalate hkept
  rw [shown_unpaged_eq, shown_unpaged_eq, (sameButOrder_put htext text).refine_eq hown hbase,
    Listing.refine_eq o params hbase, orderTerms_of_text hon hmapped hput,
    orderTerms_of_text hon hmapped htext, hkeys]

/-- A sort text sorts a listing lexicographically by the keys that it asks for, when the search is
not in the same parameter. The listing fails as it does without the text, or it shows the same rows
in the new order, and the same total; nulls come first in an ascending key and last in a descending
one. A store that gives its rows in a fixed order and sorts them stably leaves ties as they stood,
and on every other one the rows are still the same, ordered by the keys. Pieces of the text that are
blank, that name no field to sort by or that repeat a field can be left out. -/
theorem sorts_by_keys (horder : base.order = []) :
    ((∃ e, shown store o.unpaged (unsorted o params) base = .error e ∧
        shown store o.unpaged params base = .error e) ∨
      ∃ plain here, shown store o.unpaged (unsorted o params) base = .ok plain ∧
        shown store o.unpaged params base = .ok here ∧
          IsSorted (sortKeys o base.model? raw) base plain here) ∧
      (∀ before after, MayShow store o.unpaged (unsorted o params) base before →
        MayShow store o.unpaged params base after → after.Perm before ∧
          after.Pairwise fun a b => ¬ SortKey.Precedes (sortKeys o base.model? raw) b a) ∧
      (∀ k ∈ sortKeys o base.model? raw, ∀ a b : Row,
        a.cell k.column.name = .null → b.cell k.column.name ≠ .null →
          match k.direction with
          | .ascending => k.order a b = .lt
          | .descending => k.order b a = .lt) ∧
      ∀ kept, Relation.ReflTransGen (SortKey.Drops o.sorting base.model?)
          (SortKey.pieces raw) kept →
        shown store o.unpaged (params.put o.sorting.sortParam
          (.text (String.ofList ([','].intercalate kept)))) base =
            shown store o.unpaged params base :=
  ⟨failed_or_isSorted hon hmapped hown hbase htext horder,
    fun _ _ => perm_of_mayShow hon hmapped hown hbase htext horder,
    fun k _ _ _ ha hb => k.order_of_null ha hb,
    fun _ hkept => shown_of_kept hon hmapped hown hbase htext hkept⟩

end Text

/-- Three posts with two titles. -/
def titledPosts : Store :=
  [⟨Posts.model, [⟨1, [("id", .integer 1), ("title", .text "b")]⟩,
    ⟨2, [("id", .integer 2), ("title", .text "a")]⟩,
    ⟨3, [("id", .integer 3), ("title", .text "b")]⟩]⟩]

/-- The posts from the last title to the first, in a text with pieces that ask for nothing. -/
def byTitle : Entries Value := [("sort", .text "-title,, bogus,title")]

/-- Posts with one title stay as they stood, and the text can be cut down to its first piece. -/
theorem titledPosts_sorted : ∃ plain here,
    shown titledPosts postPages.unpaged (unsorted postPages byTitle) (.all Posts.model) =
      .ok plain ∧
    shown titledPosts postPages.unpaged byTitle (.all Posts.model) = .ok here ∧
    plain.rows.map Row.number = [1, 2, 3] ∧ here.rows.map Row.number = [1, 3, 2] ∧
    MayShow titledPosts postPages.unpaged (unsorted postPages byTitle) (.all Posts.model) plain.rows ∧
    MayShow titledPosts postPages.unpaged byTitle (.all Posts.model) here.rows ∧
    here.rows.Perm plain.rows ∧
    IsSorted (sortKeys postPages (some Posts.model) "-title,, bogus,title") (.all Posts.model) plain
      here ∧
    shown titledPosts postPages.unpaged (Entries.put "sort" (.text "-title") byTitle)
      (.all Posts.model) = .ok here := by
  obtain ⟨hsorted, hgiven, -, hkept⟩ := @sorts_by_keys titledPosts postPages byTitle
    (.all Posts.model) "-title,, bogus,title" rfl (by decide) nofun rfl rfl rfl
  have hplain : (shown titledPosts postPages.unpaged (unsorted postPages byTitle)
      (.all Posts.model)).toOption.map (fun s => s.rows.map Row.number) = some [1, 2, 3] := by cbv
  have hhere : (shown titledPosts postPages.unpaged byTitle
      (.all Posts.model)).toOption.map (fun s => s.rows.map Row.number) = some [1, 3, 2] := by cbv
  obtain ⟨plain, hrunPlain, hnumbers⟩ := exists_of_toOption_map hplain
  obtain ⟨here, hrun, hnumbers'⟩ := exists_of_toOption_map hhere
  have hmayPlain := mayShow_of_shown hrunPlain
  have hmay := mayShow_of_shown hrun
  refine ⟨plain, here, hrunPlain, hrun, hnumbers, hnumbers', hmayPlain, hmay,
    (hgiven _ _ hmayPlain hmay).1, ?_, ?_⟩
  · rcases hsorted with ⟨e, hfailed, -⟩ | ⟨plain', here', hplain', hhere', hsorted⟩
    · rw [hrunPlain] at hfailed
      cases hfailed
    · rw [hrunPlain] at hplain'
      rw [hrun] at hhere'
      cases hplain'
      cases hhere'
      exact hsorted
  · have hpieces : SortKey.pieces "-title,, bogus,title" =
        ["-title".toList, [], " bogus".toList, "title".toList] := by decide
    have hdrops : Relation.ReflTransGen (SortKey.Drops postPages.sorting (some Posts.model))
        (SortKey.pieces "-title,, bogus,title") ["-title".toList] := by
      rw [hpieces]
      refine .head (.drop ["-title".toList] [] [" bogus".toList, "title".toList]
        (.blank (by decide))) ?_
      refine .head (.drop ["-title".toList] " bogus".toList ["title".toList]
        (.unknown (by decide))) ?_
      exact .single (.drop ["-title".toList] "title".toList []
        (.repeated "-title".toList (by decide) (by decide) (by decide)))
    exact (hkept _ hdrops).trans hrun

/-- Posts that are searched and sorted by one parameter. -/
def sharedParam : Options :=
  { postPages with
    sorting := { postPages.sorting with sortParam := "q" }
    searching := ⟨true, "q", ["title"]⟩ }

/-- Where the search reads the parameter of the order, a sort text is searched for as well, and rows
that are shown without it are gone. -/
theorem not_perm_of_shared_param : ∃ plain here,
    sharedParam.sorting.enabled = true ∧
    (∀ field ∈ sharedParam.sorting.allowed, (Posts.model.column? field).isSome) ∧
    shown titledPosts sharedParam.unpaged (unsorted sharedParam [("q", .text "title")])
      (.all Posts.model) = .ok plain ∧
    shown titledPosts sharedParam.unpaged [("q", .text "title")] (.all Posts.model) = .ok here ∧
    ¬ here.rows.Perm plain.rows := by
  obtain ⟨s, hs, hcheck, hnone⟩ : ∃ s,
      refine sharedParam [("q", .text "title")] (.all Posts.model) = .ok s ∧
        s.check titledPosts = .ok () ∧ s.matching (s.source titledPosts) = [] :=
    ⟨_, rfl, rfl, rfl⟩
  obtain ⟨here, hrun, hrows⟩ := exists_shown_unpaged hs hcheck
  have hempty : here.rows = [] := by
    have hperm := rowsOf_perm (refine_keeps rfl hs).2.2 titledPosts
    rw [hnone] at hperm
    rw [hrows, hperm.eq_nil]
  refine ⟨_, here, rfl, by decide, rfl, hrun, fun hperm => ?_⟩
  rw [hempty] at hperm
  cases hperm.nil_eq

end TableApi.Listing
