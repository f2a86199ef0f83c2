import TableApi.Proofs.Listing.SetFilters
import TableApi.Proofs.Params.Roots
import TableApi.Proofs.Resource.Findable

/-! The spellings of a filter by several texts. The texts can be listed in one text or come one by
one, and the operator can be left out where it is equality. All spellings of one filter are read as
conditions with the same clause, so requests that differ in the spelling alone are answered
alike. -/

namespace TableApi

open Text Params

/-! ### What requests share -/

/-- Two requests agree on every parameter but those where both have a mapping. -/
def Params.Agree (params q : Entries Value) : Prop :=
  ∀ name, value params name = value q name ∨
    ∃ entries others, value params name = .map entries ∧ value q name = .map others

namespace Listing

variable {params q : Entries Value}

theorem searchText?_of_agree (h : Params.Agree params q) (o : Options.Searching) :
    searchText? o params = searchText? o q := by
  unfold searchText?
  rcases h o.searchParam with heq | ⟨entries, others, hparams, hq⟩
  · rw [heq]
  · rw [hparams, hq]

theorem sortTerms_of_agree (h : Params.Agree params q) (o : Options.Sorting)
    (model? : Option Model) : sortTerms o params model? = sortTerms o q model? := by
  unfold sortTerms
  rcases h o.sortParam with heq | ⟨entries, others, hparams, hq⟩
  · rw [heq]
  · rw [hparams, hq]

theorem ofParams_of_agree (h : Params.Agree params q) (p : Options.Pagination) :
    Window.ofParams p params = Window.ofParams p q := by
  have hint : ∀ name, Window.readInt? (value params name) = Window.readInt? (value q name) := by
    intro name
    rcases h name with heq | ⟨entries, others, hparams, hq⟩
    · rw [heq]
    · rw [hparams, hq]
      rfl
  rw [Window.ofParams, Window.ofParams, hint, hint]

/-- No search, order or page is read from a mapping, so only the filters can tell such requests
apart. -/
theorem shown_of_agree (h : Params.Agree params q) {o : Options}
    (hfilter : filtered o.filtering params = filtered o.filtering q) (store : Store)
    (base : Select) : shown store o params base = shown store o q base := by
  have hrefine : refine o params base = refine o q base := by
    unfold refine searched ordered
    simp only [hfilter, searchText?_of_agree h, sortTerms_of_agree h]
  have hpaged : paged o.pagination params = paged o.pagination q := by
    funext s
    rw [paged, paged, ofParams_of_agree h]
  unfold shown compile
  rw [hrefine, hpaged]

/-! ### Spellings -/

/-- Items spell an operator with several texts for a field: the texts are listed in one text or come
one by one, and equality needs not be named. -/
inductive Spells (field : String) (texts : List String) : Operator → List Item → Prop where
  | bareText {t : String} (ht : Lists t texts) :
      Spells field texts .eq [⟨printKey ["filter", field], t⟩]
  | text {op : Operator} {t : String} (hop : op = .eq ∨ op = .neq) (ht : Lists t texts) :
      Spells field texts op [⟨printKey ["filter", field, op.word], t⟩]
  | bareItems :
      Spells field texts .eq (texts.map fun s => ⟨printKey ["filter", field, ""], s⟩)
  | items {op : Operator} (hop : op.isOrdered = false) :
      Spells field texts op (texts.map fun s => ⟨printKey ["filter", field, op.word, ""], s⟩)

def rawFilter (field : String) (given : Value) : Entries Value :=
  [("filter", .map [(field, given)])]

variable {field : String} {texts : List String} {op : Operator} {items : List Item}

theorem wellFormed_rawFilter (hfield : IsSegment field) {given : Value}
    (h : Params.Fits 2 given) : WellFormed (rawFilter field given) := by
  have hfits : Params.Fits 1 (.map [(field, given)]) :=
    .map (List.cons_ne_nil _ _) (List.nodup_singleton _) (List.forall_mem_singleton.2 hfield)
      (List.forall_mem_singleton.2 h)
  have hroot : IsSegment "filter" := by decide
  have hbegins : BeginsSolid "filter" := ⟨'f', by decide, by decide⟩
  refine ⟨⟨List.nodup_singleton _, List.forall_mem_singleton.2 hroot,
    List.forall_mem_singleton.2 hfits⟩, List.forall_mem_singleton.2 hbegins, ?_⟩
  intro key s hmem
  cases (Prod.mk.inj (List.mem_singleton.1 hmem)).2

theorem isSegment_word (op : Operator) : IsSegment op.word := by
  cases op <;> decide

/-- A raw filter says an operator with several texts. -/
structure Says (texts : List String) (op : Operator) (given : Value) : Prop where
  unordered : op.isOrdered = false
  fits : Params.Fits 2 given
  read : ∃ v, Condition.Chooses given op v ∧ Condition.Takes op v ∧
    Condition.Leaves op v (.many (texts.map Value.text))

theorem fits_named {v : Value} (op : Operator) (h : Params.Fits 3 v) :
    Params.Fits 2 (.map [(op.word, v)]) :=
  .map (List.cons_ne_nil _ _) (List.nodup_singleton _)
    (List.forall_mem_singleton.2 (isSegment_word op)) (List.forall_mem_singleton.2 h)

theorem chooses_named (op : Operator) (v : Value) :
    Condition.Chooses (.map [(op.word, v)]) op v := by
  have hbefore : ∀ word ∈ Entries.keys ([] : Entries Value), ∀ other : Operator,
      word ≠ other.word := nofun
  exact .first op v [] hbefore

theorem takes_text (op : Operator) (t : String) : Condition.Takes op (.text t) :=
  ⟨rfl, fun _ => rfl, nofun⟩

/-- The items of a spelling are those of a raw filter. -/
theorem exists_says_of_spells (htexts : 2 ≤ texts.length) (h : Spells field texts op items) :
    ∃ given, Says texts op given ∧ items = flatten (rawFilter field given) := by
  have hne : texts ≠ [] := by
    rintro rfl
    cases htexts
  cases h with
  | bareText ht =>
    refine ⟨.text _, ⟨rfl, .text (by decide), _, .equality rfl, takes_text _ _, ?_⟩, rfl⟩
    exact .split (.inl rfl) (comma_mem_of_lists ht htexts) ht ht.isListable
  | text hop ht =>
    have hunordered : op.isOrdered = false := by rcases hop with rfl | rfl <;> rfl
    refine ⟨.map [(op.word, .text _)], ⟨hunordered, fits_named op (.text (by decide)), _,
      chooses_named op _, takes_text _ _, ?_⟩, rfl⟩
    exact .split hop (comma_mem_of_lists ht htexts) ht ht.isListable
  | bareItems =>
    refine ⟨textSet texts, ⟨rfl, .list (by decide) hne, _, .equality rfl,
      takes_textSet rfl texts, .listed rfl rfl⟩, ?_⟩
    simp [flatten, rawFilter, textSet, leavesAll, leaves, Writing.item, Writing.fullPath,
      Writing.under, Value.plainText, Function.comp_def]
  | items hop =>
    refine ⟨.map [(op.word, textSet texts)],
      ⟨hop, fits_named op (.list (by decide) hne), _, chooses_named op _,
        takes_textSet hop texts, .listed hop rfl⟩, ?_⟩
    simp [flatten, rawFilter, textSet, leavesAll, leaves, Writing.item, Writing.fullPath,
      Writing.under, Value.plainText, Function.comp_def]

/-! ### The clause of a spelling -/

theorem readAll_of_says {fields : List String} {given : Value} (hfield : field ∈ fields)
    (h : Says texts op given) : Condition.readAll fields (.map [(field, given)]) =
      [⟨field, op, .many (texts.map Value.text)⟩] := by
  obtain ⟨v, hchooses, htakes, hleaves⟩ := h.read
  have hread : Condition.read? fields field given =
      some ⟨field, op, .many (texts.map Value.text)⟩ :=
    Condition.read?_eq_some_iff.2 ⟨hfield, rfl, v, hchooses, htakes, hleaves⟩
  rw [Condition.readAll, List.filterMap_cons]
  simp only [hread, List.filterMap_nil]

theorem clauseOfCondition_many {op' : Operator} (hop : op.isOrdered = false)
    (hop' : op'.isOrdered = false) (hsense : op.isNegative = op'.isNegative)
    (model? : Option Model) (field : String) (vs : List Value) :
    clauseOfCondition model? ⟨field, op, .many vs⟩ =
      clauseOfCondition model? ⟨field, op', .many vs⟩ := by
  have hclause : ∀ (t : Term) (ws : List Value),
      clauseOf t op (.many ws) = clauseOf t op' (.many ws) := by
    intro t ws
    rw [clauseOf_many hop, clauseOf_many hop', Clause.among, Clause.among, hsense]
  simp only [clauseOfCondition, coerceOperand]
  cases vs.mapM (coerceFor (Term.ofField model? field)) with
  | error e => rfl
  | ok coerced => exact hclause _ coerced

theorem filtered_of_says {o : Options.Filtering} {params q : Entries Value} {op' : Operator}
    {given given' : Value} (hfield : field ∈ o.fields)
    (hparams : value params o.filterParam = .map [(field, given)])
    (hq : value q o.filterParam = .map [(field, given')]) (h : Says texts op given)
    (h' : Says texts op' given') (hsense : op.isNegative = op'.isNegative) :
    filtered o params = filtered o q := by
  funext s
  unfold filtered
  rw [hparams, hq, readAll_of_says hfield h, readAll_of_says hfield h', List.foldlM_cons,
    List.foldlM_cons, clauseOfCondition_many h.unordered h'.unordered hsense]

/-! ### Requests with spellings -/

section Request

variable {given : Value} {before after : List Item} (hfield : IsSegment field)
  (hgiven : Params.Fits 2 given)
include hfield hgiven

theorem value_filter (hothers : ∀ item ∈ before ++ after, item.root? ≠ some "filter") :
    value (parse (before ++ flatten (rawFilter field given) ++ after)) "filter" =
      .map [(field, given)] := by
  obtain ⟨hbefore, hafter⟩ := List.forall_mem_append.1 hothers
  rw [value_parse_at_root hbefore hafter, parse_flatten (wellFormed_rawFilter hfield hgiven)]
  rfl

theorem value_of_ne_filter {name : String} (hname : name ≠ "filter") (before after : List Item) :
    value (parse (before ++ flatten (rawFilter field given) ++ after)) name =
      value (parse (before ++ after)) name := by
  apply value_parse_off_root
  intro item hitem hroot
  obtain ⟨key, hkey, hitemRoot⟩ :=
    root?_of_mem_flatten (wellFormed_rawFilter hfield hgiven) hitem
  rw [List.mem_singleton.1 hkey, hroot] at hitemRoot
  exact hname (Option.some.inj hitemRoot)

end Request

/-- Requests that differ in the spelling of one filter alone show the same: the same rows with the
same total, or the same error. -/
theorem shown_of_spells {overrides : Value} {o : Options}
    (hresolve : Options.resolve overrides = .ok o) (hparam : o.filtering.filterParam = "filter")
    (hfield : field ∈ o.filtering.fields) (hlistable : ∀ s ∈ texts, IsListable s)
    (htexts : 2 ≤ texts.length) :
    Lists (joinWith "," texts) texts ∧
      ∀ op op' items items', Spells field texts op items → Spells field texts op' items' →
        op.isNegative = op'.isNegative →
        ∀ before after : List Item, (∀ item ∈ before ++ after, item.root? ≠ some "filter") →
          ∀ (store : Store) (base : Select),
            shown store o (parse (before ++ items ++ after)) base =
              shown store o (parse (before ++ items' ++ after)) base := by
  have hne : texts ≠ [] := by
    rintro rfl
    cases htexts
  refine ⟨lists_joinWith hne hlistable, ?_⟩
  intro op op' items items' hspells hspells' hsense before after hothers store base
  have hsegment : IsSegment field := isSegment_of_isSafeName
    (Options.isSafeName_of_resolve hresolve field (mem_fieldNames_of_filtering hfield))
  obtain ⟨given, hsays, rfl⟩ := exists_says_of_spells htexts hspells
  obtain ⟨given', hsays', rfl⟩ := exists_says_of_spells htexts hspells'
  have hfilter := value_filter hsegment hsays.fits hothers
  have hfilter' := value_filter hsegment hsays'.fits hothers
  refine shown_of_agree (fun name => ?_) ?_ store base
  · by_cases hname : name = "filter"
    · exact .inr ⟨_, _, hname ▸ hfilter, hname ▸ hfilter'⟩
    · exact .inl ((value_of_ne_filter hsegment hsays.fits hname before after).trans
        (value_of_ne_filter hsegment hsays'.fits hname before after).symm)
  · exact filtered_of_says hfield (hparam ▸ hfilter) (hparam ▸ hfilter') hsays hsays' hsense

def byStatus : Value := .map [("filtering", .map [("enabled", .bool true),
  ("filterable_fields", .list [.text "status"])])]

/-- A draft, a published post and one that was withdrawn. -/
def statusPosts : Store :=
  [⟨Posts.model, [⟨1, [("id", .integer 1), ("status", .text "draft")]⟩,
    ⟨2, [("id", .integer 2), ("status", .text "published")]⟩,
    ⟨3, [("id", .integer 3), ("status", .text "withdrawn")]⟩]⟩]

def statusOptions : Options where
  pagination := ⟨false, "page", "size", ⟨10, Nat.succ_pos 9⟩, ⟨100, Nat.succ_pos 99⟩⟩
  sorting := ⟨false, "sort", .ascending, []⟩
  searching := ⟨false, "q", []⟩
  filtering := ⟨true, "filter", ["status"]⟩
  totals := ⟨true, "rows", "total"⟩

/-- The draft and the published post, asked for in one text and one by one. -/
theorem shown_of_statusPosts : ∃ here,
    (Options.resolve byStatus = .ok statusOptions ∧ statusOptions.filtering.filterParam = "filter" ∧
      "status" ∈ statusOptions.filtering.fields ∧ (∀ s ∈ ["draft", "published"], IsListable s) ∧
      2 ≤ ["draft", "published"].length) ∧
    shown statusPosts statusOptions (parse [⟨"filter[status]", " draft,, published"⟩])
      (.all Posts.model) = .ok here ∧
    shown statusPosts statusOptions
      (parse [⟨"filter[status][in][]", "draft"⟩, ⟨"filter[status][in][]", "published"⟩])
      (.all Posts.model) = .ok here ∧
    here.rows.map Row.number = [1, 2] ∧ here.total? = some 2 := by
  have hresolve : Options.resolve byStatus = .ok statusOptions :=
    eq_ok_of_toOption (by decide +kernel)
  have hfield : "status" ∈ statusOptions.filtering.fields := by decide
  have hlistable : ∀ s ∈ ["draft", "published"], IsListable s := by decide
  have hlists : Lists " draft,, published" ["draft", "published"] := lists_iff.2 (by decide)
  obtain ⟨-, hall⟩ := shown_of_spells hresolve rfl hfield hlistable (by decide)
  have hkey : printKey ["filter", "status"] = "filter[status]" := by decide
  have hkeyIn : printKey ["filter", "status", "in", ""] = "filter[status][in][]" := by decide
  have hspells : Spells "status" ["draft", "published"] .eq
      [⟨"filter[status]", " draft,, published"⟩] := hkey ▸ .bareText hlists
  have hspells' : Spells "status" ["draft", "published"] .isIn
      [⟨"filter[status][in][]", "draft"⟩, ⟨"filter[status][in][]", "published"⟩] :=
    hkeyIn ▸ .items rfl
  have hsame := hall .eq .isIn _ _ hspells hspells' rfl [] [] nofun statusPosts (.all Posts.model)
  rw [List.nil_append, List.append_nil, List.nil_append, List.append_nil] at hsame
  have hfits : Params.Fits 3 (.list [.text "draft", .text "published"]) :=
    @Params.Fits.list _ ["draft", "published"] (by decide) (by decide)
  have hflatten : flatten (rawFilter "status"
      (.map [("in", .list [.text "draft", .text "published"])])) =
        [⟨"filter[status][in][]", "draft"⟩, ⟨"filter[status][in][]", "published"⟩] := by decide
  have hsegment : IsSegment "status" := by decide
  have hparse := parse_flatten (wellFormed_rawFilter hsegment (fits_named .isIn hfits))
  rw [Operator.word, hflatten] at hparse
  obtain ⟨here, hhere, hrows, htotal⟩ : ∃ here, shown statusPosts statusOptions
      (rawFilter "status" (.map [("in", .list [.text "draft", .text "published"])]))
      (.all Posts.model) = .ok here ∧ here.rows.map Row.number = [1, 2] ∧ here.total? = some 2 :=
    ⟨_, rfl, rfl, rfl⟩
  rw [← hparse] at hhere
  exact ⟨here, ⟨hresolve, rfl, hfield, hlistable, by decide⟩, hsame.trans hhere, hhere, hrows,
    htotal⟩

end Listing

end TableApi
