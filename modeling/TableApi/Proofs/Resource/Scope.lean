import TableApi.Proofs.Listing.Pages
import TableApi.Proofs.Resource.Writes

/-! The collection of a resource and the requests to one record. Listings start from the collection
and give only rows of it. The requests to one record find its row by the key alone: for them a
resource is the same with and without its collection, and they stay inside the collection exactly at
the addresses without a row outside of it. -/

namespace TableApi.Resource

variable {σ : Schema} {r : Resource} {state : State} {address : Value}

def collected (r : Resource) (store : Store) : List Row := r.base.rowsOf store

/-- Whether an address is that of a row of the collection. -/
def Reaches (r : Resource) (store : Store) (address : Value) : Prop :=
  ∃ row ∈ r.collected store, r.find store address = .ok row

/-- At an address the requests to one record succeed only for a row of the collection. For a row
outside of it they answer that there is no record, and leave the tables as they are. -/
structure StaysInside (r : Resource) (state : State) (address : Value) : Prop where
  shows : ∀ requested answer, r.show_ address requested state.store = .ok answer →
    r.Reaches state.store address
  updates : ∀ now payload answer, (r.update now address payload state).result = .ok answer →
    r.Reaches state.store address
  destroys : (r.destroy address state).result = .ok () → r.Reaches state.store address
  outside : ∀ row, r.find state.store address = .ok row → row ∉ r.collected state.store →
    (∀ requested, r.show_ address requested state.store = .error (.refused .noRecord)) ∧
      (∀ now payload, (r.update now address payload state).result = .error (.refused .noRecord) ∧
        (r.update now address payload state).state.store = state.store) ∧
      (r.destroy address state).result = .error (.refused .noRecord) ∧
        (r.destroy address state).state.store = state.store

/-! ### One record -/

theorem show_eq (requested : Option String) (store : Store) : r.show_ address requested store =
    (r.find store address).map (r.answerRow .show_ requested) := by
  unfold show_
  cases r.find store address <;> rfl

section Found

variable {e : ServiceError} (h : r.find state.store address = .error e)
include h

theorem update_of_find_error (now : Calendar.Moment) (payload : Value) :
    (r.update now address payload state).result = .error e ∧
      (r.update now address payload state).state.store = state.store := by
  rw [update_of_find_eq_error h]
  exact ⟨rfl, rfl⟩

theorem destroy_of_find_error : (r.destroy address state).result = .error e ∧
    (r.destroy address state).state.store = state.store := by
  rw [destroy_of_find_eq_error h]
  exact ⟨rfl, rfl⟩

end Found

/-- The requests to one record of a resource do what they do for the same resource with any other
collection, and what they succeed for is the row of the table that the address denotes. They stay
inside the collection at an address exactly when no row outside of it is found there. -/
theorem items_ignore_collection (hs : state.store.Sound σ) (hm : r.model ∈ σ.models) :
    (r.StaysInside state address ↔
        ∀ row, r.find state.store address = .ok row → row ∈ r.collected state.store) ∧
      (∀ collection? : Option Select,
        (∀ requested, { r with collection? }.show_ address requested state.store =
            r.show_ address requested state.store) ∧
          (∀ now payload, { r with collection? }.update now address payload state =
            r.update now address payload state) ∧
          { r with collection? }.destroy address state = r.destroy address state) ∧
      (∀ row, r.find state.store address = .ok row → row ∈ state.store.rows r.model ∧
        ∀ requested, r.show_ address requested state.store =
          .ok (r.answerRow .show_ requested row)) ∧
      ∀ e, r.find state.store address = .error e →
        (∀ requested, r.show_ address requested state.store = .error e) ∧
          (∀ now payload, (r.update now address payload state).result = .error e ∧
            (r.update now address payload state).state.store = state.store) ∧
          (r.destroy address state).result = .error e ∧
            (r.destroy address state).state.store = state.store := by
  refine ⟨⟨fun hinside row hrow => ?_, fun hall => ⟨?_, ?_, ?_, ?_⟩⟩, fun _ => ?_, ?_, ?_⟩
  · by_contra hout
    have hshow := (hinside.outside row hrow hout).1 none
    rw [show_eq, hrow] at hshow
    cases hshow
  · intro requested answer hshow
    rw [show_eq] at hshow
    cases hfind : r.find state.store address with
    | ok row => exact ⟨row, hall row hfind, hfind⟩
    | error e =>
      rw [hfind] at hshow
      cases hshow
  · intro now payload answer hok
    obtain ⟨c, -⟩ := (update_of_sound hs hm now address payload).of_ok hok
    exact ⟨c.found, hall c.found c.at_address, c.at_address⟩
  · intro hok
    obtain ⟨c⟩ := (destroy_of_sound hs hm address).of_ok hok
    exact ⟨c.row, hall c.row c.at_address, c.at_address⟩
  · intro row hrow hout
    exact absurd (hall row hrow) hout
  · exact ⟨fun _ => rfl, fun _ _ => rfl, rfl⟩
  · intro row hrow
    refine ⟨mem_rows_of_find hrow, fun requested => ?_⟩
    rw [show_eq, hrow]
    rfl
  · intro e he
    refine ⟨fun requested => ?_, update_of_find_error he, destroy_of_find_error he⟩
    rw [show_eq, he]
    rfl

/-! ### Published posts -/

def publishedPosts : Registration := { Posts.registration with
  collection? := some { Select.all Posts.model with
    clauses := [.compare (.column Posts.model.columns[3]) .equal (.text "published")] } }

/-- A post without a status, which is a draft. -/
def draftPost : Value := .map [("title", .text "Second"), ("content", .text "Soon")]

def afterCreating (r : Resource) (payload : Value) : State :=
  (r.perform noon (.create payload) ⟨Store.empty postsSchema.models, 0⟩).state

/-- The requests to one record stay inside the collection of published posts at the address of a
published one. -/
theorem staysInside_publishedPost : ∃ registry r,
    Registry.register [] publishedPosts = .ok (registry, r) ∧
      r.StaysInside (r.afterCreating publishedPost) (.text "1") := by
  have hfound : (Registry.register [] publishedPosts).toOption.map (fun p =>
      (p.2.find (p.2.afterCreating publishedPost).store (.text "1")).toOption.map fun row =>
        (p.2.collected (p.2.afterCreating publishedPost).store).contains row) =
          some (some true) := by
    decide +kernel
  obtain ⟨⟨registry, r⟩, hregister, hfound⟩ := exists_of_toOption_map hfound
  obtain ⟨row, hrow, hcollected⟩ := exists_of_toOption_map hfound
  have hm := mem_postsSchema_of_register hregister rfl
  have hstate : Reachable postsSchema (r.afterCreating publishedPost) :=
    .perform (.empty 0) hm noon (.create publishedPost)
  refine ⟨registry, r, hregister,
    (items_ignore_collection (sound_of_reachable hstate) hm).1.2 fun found hfind => ?_⟩
  rw [← Except.ok.inj (hrow.symm.trans hfind)]
  simpa using hcollected

/-- A draft that the collection of published posts leaves out is shown, changed and destroyed all
the same. -/
theorem not_staysInside_draftPost : ∃ registry r,
    Registry.register [] publishedPosts = .ok (registry, r) ∧
      Reachable postsSchema (r.afterCreating draftPost) ∧
      (∃ row, r.find (r.afterCreating draftPost).store (.text "1") = .ok row ∧
        row ∉ r.collected (r.afterCreating draftPost).store) ∧
      (∃ answer, r.show_ (.text "1") none (r.afterCreating draftPost).store = .ok answer) ∧
      (∃ answer, (r.update noon (.text "1") (.map [("title", .text "X")])
        (r.afterCreating draftPost)).result = .ok answer) ∧
      (r.destroy (.text "1") (r.afterCreating draftPost)).result = .ok () ∧
      ¬ r.StaysInside (r.afterCreating draftPost) (.text "1") := by
  have hruns : (Registry.register [] publishedPosts).toOption.map (fun p =>
      let state := p.2.afterCreating draftPost
      ((p.2.find state.store (.text "1")).toOption.map fun row =>
          !(p.2.collected state.store).contains row) == some true &&
        (p.2.show_ (.text "1") none state.store).toOption.isSome &&
        (p.2.update noon (.text "1") (.map [("title", .text "X")]) state).result.toOption.isSome &&
        (p.2.destroy (.text "1") state).result.toOption.isSome) = some true := by
    decide +kernel
  obtain ⟨⟨registry, r⟩, hregister, hruns⟩ := exists_of_toOption_map hruns
  simp only [Bool.and_eq_true, beq_iff_eq] at hruns
  obtain ⟨⟨⟨hfound, hshown⟩, hupdated⟩, hdestroyed⟩ := hruns
  obtain ⟨row, hrow, hout⟩ := exists_of_toOption_map hfound
  have hshows := exists_of_isSome_toOption hshown
  obtain ⟨⟨⟩, hdestroys⟩ := exists_of_isSome_toOption hdestroyed
  have hleft : row ∉ r.collected (r.afterCreating draftPost).store := by simpa using hout
  refine ⟨registry, r, hregister,
    .perform (.empty 0) (mem_postsSchema_of_register hregister rfl) noon (.create draftPost),
    ⟨row, hrow, hleft⟩, hshows, exists_of_isSome_toOption hupdated,
    hdestroys, fun hinside => ?_⟩
  obtain ⟨answer, hshow⟩ := hshows
  obtain ⟨found, hmem, hfind⟩ := hinside.shows none answer hshow
  rw [← Except.ok.inj (hrow.symm.trans hfind)] at hmem
  exact hleft hmem

end TableApi.Resource
