import TableApi.Proofs.Params.Roots
import TableApi.Proofs.Posts.Index
import TableApi.Proofs.Resource.Narrowing
import TableApi.Proofs.Resource.Showable

/-! The parameter `fields` at the two routes that show rows. The list of records reads it in the tree
of the query: the last item with the root `fields` counts, and only when there are no segments
behind the root. The route of one record takes the last item whose key is `fields` as it stands. The
two show the same columns exactly when both texts ask for the same of the fields that are offered.
They do when the last item with the root has the key as it stands; a later item with segments, or
white space around a key, tells them apart. -/

namespace TableApi

namespace Web

/-! ### The two texts -/

/-- The text of `fields` that the list of records reads in a query. -/
def listText? (query : String) : Option String := listedFields? (Params.parse (readQuery query))

/-- The text of `fields` that the route of one record reads. -/
def itemText? (query : String) : Option String := lastValue? (readQuery query) "fields"

def lastFields? (query : String) : Option Params.Item :=
  Params.lastUnder? (readQuery query) "fields"

/-- The list reads the value of the last item with the root, when its key is the root with white
space around it, and nothing otherwise. -/
theorem listText?_eq_some_iff {query s : String} : listText? query = some s ↔
    ∃ item, lastFields? query = some item ∧ Text.strip item.key = "fields" ∧ item.value = s := by
  rw [lastFields?, ← Params.value_parse_eq_text_iff (by decide), listText?, listedFields?]
  split
  · next text hvalue => rw [hvalue, Option.some_inj, Value.text.injEq]
  · next hother => exact iff_of_false nofun (hother s)

theorem listText?_eq_itemText? {query : String}
    (h : ∀ item, lastFields? query = some item → item.key = "fields") :
    listText? query = itemText? query := by
  rw [itemText?, lastValue?, Params.find?_key_eq_lastUnder? (by decide) (by decide) h]
  apply Option.ext
  intro s
  rw [listText?_eq_some_iff, Option.map_eq_some_iff]
  refine exists_congr fun item => and_congr_right fun hitem => and_iff_right ?_
  rw [h item hitem]
  decide

/-! ### Columns -/

open Resource

variable {r : Resource} {query address : String} {row : Row}

/-- The two routes of a resource ask for the same of the fields that it offers. -/
def ReadsAlike (r : Resource) (query : String) : Prop :=
  ∀ field ∈ r.model.fields, r.Offers .show_ field →
    (AsksFor (listText? query) field ↔ AsksFor (itemText? query) field)

theorem offers_index_iff (hfields : r.indexFields? = r.showFields?) {field : String} :
    r.Offers .index field ↔ r.Offers .show_ field := by
  rw [Offers, Offers, fieldsFor, fieldsFor, hfields]

/-- The columns of a row are the same at both routes exactly when both ask for the same. -/
theorem keys_eq_iff (hfields : r.indexFields? = r.showFields?) (query : String) (row : Row) :
    Entries.keys (r.answerRow .index (listText? query) row) =
      Entries.keys (r.answerRow .show_ (itemText? query) row) ↔ ReadsAlike r query := by
  rw [answerRow, answerRow, keys_answer, keys_answer]
  constructor
  · intro hkeys field hfield hoffers
    have hmem : field ∈ r.model.fields.filter (fun field =>
        decide (r.Offers .index field ∧ AsksFor (listText? query) field)) ↔
          field ∈ r.model.fields.filter (fun field =>
            decide (r.Offers .show_ field ∧ AsksFor (itemText? query) field)) := by rw [hkeys]
    simpa [hfield, offers_index_iff hfields, hoffers] using hmem
  · intro halike
    refine List.filter_congr fun field hfield => ?_
    rw [decide_eq_decide, offers_index_iff hfields]
    exact and_congr_right (halike field hfield)

theorem ReadsAlike.answerRow_eq (h : ReadsAlike r query) (hfields : r.indexFields? = r.showFields?)
    (row : Row) :
    r.answerRow .index (listText? query) row = r.answerRow .show_ (itemText? query) row := by
  rw [answerRow, answerRow, answer_eq_filter, answer_eq_filter]
  refine List.filter_congr fun entry hentry => ?_
  have hfield : entry.1 ∈ r.model.fields := by
    rw [← keys_plainFields r.model (Record.ofRow r.model row)]
    exact List.mem_map_of_mem hentry
  rw [decide_eq_decide, offers_index_iff hfields]
  exact and_congr_right (h entry.1 hfield)

/-! ### Requests -/

/-- Two requests with one query string, for the list of a resource and for the record at an
address. -/
structure SameQuery (app : App) (r : Resource) (query address : String) (list item : Request) :
    Prop where
  list_method : list.method = "GET"
  list_place : place? app.registry (percentDecode list.path) = some (.list r)
  list_query : list.query = query
  item_method : item.method = "GET"
  item_place : place? app.registry (percentDecode item.path) = some (.item r address)
  item_query : item.query = query

/-- What two such requests are told: the rows of a page, and the row at the address, each with the
columns that its route reads in the query. -/
structure Told (r : Resource) (query address : String) (store : Store) (list item : Body)
    (l : Listing) (row : Row) : Prop where
  compiled : Listing.compile store r.options (Params.parse (readQuery query)) r.base = .ok l
  list_body : list = .json (.map (r.listed (listText? query) (l.page.rowsOf store) l.total?))
  found : r.find store (.text address) = .ok row
  item_body : item = .json (.map (r.answerRow .show_ (itemText? query) row))

variable {app : App} {list item : Request} {now : Calendar.Moment} {fresh : String} {state : State}

theorem exists_told (h : SameQuery app r query address list item)
    (hlist : (app.handle now fresh list state).response.status = 200)
    (hitem : (app.handle now fresh item state).response.status = 200) :
    ∃ l row, Told r query address state.store (app.handle now fresh list state).response.body
      (app.handle now fresh item state).response.body l row := by
  obtain ⟨listed, hlistReply, hlistStatus, hlistBody⟩ := exists_of_handle h.list_method hlist
  obtain ⟨shown, hitemReply, hitemStatus, hitemBody⟩ := exists_of_handle h.item_method hitem
  rw [dispatch_eq_follow (.list r) (.index r) h.list_place
    (by rw [h.list_method]; rfl)] at hlistReply
  rw [dispatch_eq_follow (.item r address) (.show_ r address) h.item_place
    (by rw [h.item_method]; rfl)] at hitemReply
  obtain ⟨answer, hindex, hanswer⟩ := exists_of_replyTo hlistReply hlistStatus
  obtain ⟨record, hshow, hrecord⟩ := exists_of_replyTo hitemReply hitemStatus
  rw [h.list_query] at hindex
  rw [h.item_query, show_eq] at hshow
  obtain ⟨l, hl, -, rfl⟩ := index_eq_ok_iff.1 hindex
  cases hfind : r.find state.store (.text address) with
  | error e =>
    rw [hfind] at hshow
    cases hshow
  | ok row =>
    rw [hfind] at hshow
    cases hshow
    exact ⟨l, row, hl, hlistBody.trans hanswer, hfind, hitemBody.trans hrecord⟩

/-- What the list of a resource and the route of one record tell for one query string, when both
offer the same fields. The list reads the last item with the root `fields`, if its key is this root
with white space around it. A row has the same columns at both routes exactly when their texts ask
for the same of the fields that are offered; then it has the same values too. For that it is enough
that the last item with the root has it as its key without white space. -/
theorem columns_same_iff (hfields : r.indexFields? = r.showFields?)
    (h : SameQuery app r query address list item)
    (hlist : (app.handle now fresh list state).response.status = 200)
    (hitem : (app.handle now fresh item state).response.status = 200) :
    ∃ l row, Told r query address state.store (app.handle now fresh list state).response.body
        (app.handle now fresh item state).response.body l row ∧
      (∀ s, listText? query = some s ↔ ∃ last, lastFields? query = some last ∧
        Text.strip last.key = "fields" ∧ last.value = s) ∧
      (Entries.keys (r.answerRow .index (listText? query) row) =
        Entries.keys (r.answerRow .show_ (itemText? query) row) ↔ ReadsAlike r query) ∧
      (ReadsAlike r query →
        r.answerRow .index (listText? query) row = r.answerRow .show_ (itemText? query) row) ∧
      ((∀ last, lastFields? query = some last → last.key = "fields") → ReadsAlike r query) := by
  obtain ⟨l, row, htold⟩ := exists_told h hlist hitem
  refine ⟨l, row, htold, fun _ => listText?_eq_some_iff, keys_eq_iff hfields query row,
    fun halike => halike.answerRow_eq hfields row, fun hplain field _ _ => ?_⟩
  rw [listText?_eq_itemText? hplain]

/-! ### Posts -/

def listRequest (query : String) : Request := ⟨"GET", "/api/posts", query, [], ""⟩

def itemRequest (query : String) : Request := ⟨"GET", "/api/posts/1", query, [], ""⟩

theorem sameQuery_posts (settings : Settings) (hname : r.name = "posts") (query : String) :
    SameQuery ⟨settings, [r]⟩ r query "1" (listRequest query) (itemRequest query) where
  list_method := rfl
  list_place := by
    have hpath : percentDecode "/api/posts" = listPath "posts" := by decide +kernel
    rw [← hname] at hpath
    exact (congrArg (place? [r]) hpath).trans (place?_listPath r [])
  list_query := rfl
  item_method := rfl
  item_place := by
    have hpath : percentDecode "/api/posts/1" = listPath "posts" ++ "/" ++ "1" := by decide +kernel
    rw [← hname] at hpath
    exact (congrArg (place? [r]) hpath).trans (place?_recordPath r [] (by decide) (by decide))
  item_query := rfl

def postsApp (r : Resource) : App := ⟨.default, [r]⟩

def listResponse (r : Resource) (query : String) : Response :=
  ((postsApp r).handle noon "tag" (listRequest query) Posts.underscored).response

def itemResponse (r : Resource) (query : String) : Response :=
  ((postsApp r).handle noon "tag" (itemRequest query) Posts.underscored).response

/-- Two requests for posts that are answered with success. -/
structure Answered (r : Resource) (query : String) : Prop where
  registry : defaultRegistry = .ok [r]
  posts : Posts.IsPosts r
  index_fields : r.indexFields? = none
  same : SameQuery (postsApp r) r query "1" (listRequest query) (itemRequest query)
  list_status : (listResponse r query).status = 200
  item_status : (itemResponse r query).status = 200

theorem Answered.fields_eq {r : Resource} (h : Answered r query) : r.indexFields? = r.showFields? :=
  h.index_fields.trans h.posts.showFields.symm

theorem exists_answered (query : String) (h : (defaultRegistry.toOption.map fun registry =>
    registry.all fun r =>
      (listResponse r query).status == 200 && (itemResponse r query).status == 200) = some true) :
    ∃ r, Answered r query := by
  obtain ⟨registry, hregistry, hanswered⟩ := exists_of_toOption_map h
  obtain ⟨r, rfl, hr, hname, hindex⟩ := Posts.exists_of_defaultRegistry hregistry
  rw [List.all_cons, List.all_nil, Bool.and_true, Bool.and_eq_true, beq_iff_eq, beq_iff_eq]
    at hanswered
  exact ⟨r, hregistry, hr, hindex, sameQuery_posts .default hname query, hanswered.1, hanswered.2⟩

/-- Two texts and a key with another root, of which the last text counts at both routes. -/
def plainQuery : String := "fields=status&sort[fields]=1&fields=title,%20id"

/-- The first post has the same columns and values in the list and on its own. -/
theorem columns_of_plainQuery : ∃ r, Answered r plainQuery ∧ ∃ l row,
    Told r plainQuery "1" Posts.underscored.store (listResponse r plainQuery).body
      (itemResponse r plainQuery).body l row ∧
    r.answerRow .index (listText? plainQuery) row =
      r.answerRow .show_ (itemText? plainQuery) row := by
  obtain ⟨r, h⟩ := exists_answered plainQuery (by decide +kernel)
  obtain ⟨l, row, htold, -, -, hequal, hplain⟩ :=
    columns_same_iff h.fields_eq h.same h.list_status h.item_status
  have hlast : lastFields? plainQuery = some ⟨"fields", "title, id"⟩ := by decide +kernel
  have halike : ReadsAlike r plainQuery := hplain fun last hfound => by
    rw [← Option.some.inj (hlast.symm.trans hfound)]
  exact ⟨r, h, l, row, htold, hequal halike⟩

/-- A text behind which an item of a list comes. -/
def mixedQuery : String := "fields=id&fields[]=title"

/-- The list of posts, with the first post on its page, reads no text in this query and tells all
columns. The first post on its own has one column. -/
theorem columns_of_mixedQuery : ∃ r, Answered r mixedQuery ∧ ∃ l row,
    Told r mixedQuery "1" Posts.underscored.store (listResponse r mixedQuery).body
      (itemResponse r mixedQuery).body l row ∧
    row ∈ l.page.rowsOf Posts.underscored.store ∧
    Entries.keys (r.answerRow .index (listText? mixedQuery) row) =
      ["id", "title", "content", "status", "published_at", "created_at", "updated_at"] ∧
    Entries.keys (r.answerRow .show_ (itemText? mixedQuery) row) = ["id"] := by
  obtain ⟨r, h⟩ := exists_answered mixedQuery (by decide +kernel)
  obtain ⟨l, row, htold⟩ := exists_told h.same h.list_status h.item_status
  have hlistText : listText? mixedQuery = none := by decide +kernel
  have hitemText : itemText? mixedQuery = some "id" := by decide +kernel
  have hoffers : ∀ field, r.Offers .show_ field := by
    intro field
    simp [Offers, fieldsFor, h.posts.showFields]
  have hpage : ((Listing.compile Posts.underscored.store Posts.listing
      (Params.parse (readQuery mixedQuery)) (.all Posts.model)).toOption.map fun l =>
        l.page.rowsOf Posts.underscored.store) =
          some (Posts.underscored.store.rows Posts.model) := by
    decide +kernel
  have hbase : r.base = .all Posts.model := by
    rw [base, h.posts.collection, h.posts.model]
    rfl
  have hcompiled := htold.compiled
  rw [h.posts.options, hbase] at hcompiled
  rw [hcompiled] at hpage
  refine ⟨r, h, l, row, htold, ?_, ?_, ?_⟩
  · have hmem := mem_rows_of_find htold.found
    rw [h.posts.model, ← Option.some.inj hpage] at hmem
    exact hmem
  · rw [answerRow, keys_answer, hlistText, h.posts.model]
    simp only [offers_index_iff h.fields_eq, hoffers, asksFor_none, and_self, decide_true,
      List.filter_true]
    rfl
  · rw [answerRow, keys_answer, hitemText, h.posts.model]
    simp only [hoffers, true_and]
    decide +kernel

end Web

end TableApi
