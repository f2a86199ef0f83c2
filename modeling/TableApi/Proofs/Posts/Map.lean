import Mathlib.Data.List.Induction
import TableApi.Proofs.Posts.Requests

/-! Posts as a map from numbers to texts. Over every run of requests the rows of the posts are those
that the history of the run tells to be alive, with the texts that were last named for them. One
request keeps this, whatever comes of it, and so does every run. -/

namespace TableApi.Posts

open Resource

/-- The rows of the posts are the live posts of a history, with their texts. -/
structure Tracks (events : List Event) (rows : List Row) : Prop where
  alive : ∀ row ∈ rows, ∃ since, LiveSince events row.number since
  present : ∀ i since, LiveSince events i since → ∃ row ∈ rows, row.number = i ∧
    Holds row fun field => textOf? field i since

variable {events : List Event} {e : Event} {rows : List Row} {row : Row}

theorem tracks_nil : Tracks [] [] where
  alive _ hrow := absurd hrow List.not_mem_nil
  present _ _ hlive := absurd hlive not_liveSince_nil

theorem Tracks.mem_numbers_iff (h : Tracks events rows) {i : Int} :
    i ∈ rows.map Row.number ↔ ∃ since, LiveSince events i since := by
  constructor
  · intro hi
    obtain ⟨row, hrow, rfl⟩ := List.mem_map.1 hi
    exact h.alive row hrow
  · rintro ⟨since, hlive⟩
    obtain ⟨row, hrow, rfl, -⟩ := h.present i since hlive
    exact List.mem_map_of_mem hrow

theorem Tracks.find?_eq_none (h : Tracks events rows) {i : Int}
    (hdead : ∀ since, ¬ LiveSince events i since) : rows.find? (·.number == i) = none := by
  rw [List.find?_eq_none]
  rintro row hrow hsame
  obtain rfl : row.number = i := by simpa using hsame
  obtain ⟨since, hlive⟩ := h.alive row hrow
  exact hdead since hlive

theorem Tracks.fitsStore (h : Tracks events rows) {i : Int} {since : List Event}
    (hlive : LiveSince events i since) : Number.fitsStore i = true := by
  obtain ⟨row, -, rfl, hholds⟩ := h.present i since hlive
  exact hholds.fits

/-! ### One event -/

theorem writes_iff {i : Int} :
    writes i e = true ↔ effect e = .created i ∨ effect e = .changed i := by
  simp [writes]

theorem Tracks.present_of_not_writes (h : Tracks events rows) {i : Int} {before : List Event}
    (hbefore : LiveSince events i before) (hwrites : writes i e = false) :
    ∃ row ∈ rows, row.number = i ∧ Holds row fun field => textOf? field i (before ++ [e]) := by
  obtain ⟨row, hrow, hnumber, hholds⟩ := h.present i before hbefore
  refine ⟨row, hrow, hnumber, ?_⟩
  simpa only [textOf?_concat_of_not_writes hwrites] using hholds

theorem Tracks.nothing (h : Tracks events rows) (he : effect e = .nothing) :
    Tracks (events ++ [e]) rows where
  alive row hrow := by
    obtain ⟨since, hlive⟩ := h.alive row hrow
    exact ⟨_, hlive.concat (by simp [he])⟩
  present i since hlive := by
    rcases liveSince_concat_iff.1 hlive with ⟨hcreated, -⟩ | ⟨before, hbefore, rfl, -⟩
    · simp [he] at hcreated
    · exact h.present_of_not_writes hbefore (by simp [writes, he])

theorem Tracks.created (h : Tracks events rows) (he : effect e = .created row.number)
    (hfresh : Store.Fresh row rows)
    (hholds : Holds row fun field =>
      (named? field e).or (if field = "status" then some "draft" else none)) :
    Tracks (events ++ [e]) (Store.insertRow row rows) where
  alive other hother := by
    rcases Store.mem_insertRow.1 hother with rfl | hold
    · exact ⟨_, liveSince_concat_of_created he⟩
    · obtain ⟨since, hlive⟩ := h.alive other hold
      exact ⟨_, hlive.concat (by simp [he])⟩
  present i since hlive := by
    rcases liveSince_concat_iff.1 hlive with ⟨hcreated, rfl⟩ | ⟨before, hbefore, rfl, -⟩
    · obtain rfl : row.number = i := by simpa [he] using hcreated
      refine ⟨row, Store.mem_insertRow.2 (.inl rfl), rfl, ?_⟩
      simpa only [textOf?_singleton_of_writes (writes_iff.2 (.inl he))] using hholds
    · have hne : row.number ≠ i := by
        obtain ⟨other, hother, rfl, -⟩ := h.present i before hbefore
        exact (hfresh other hother).symm
      obtain ⟨other, hother, hnumber, hheld⟩ :=
        h.present_of_not_writes hbefore (e := e) (by simp [writes, he, hne])
      exact ⟨other, Store.mem_insertRow.2 (.inr hother), hnumber, hheld⟩

theorem Tracks.changed (h : Tracks events rows) {next : Row} (hrow : row ∈ rows)
    (hrows : Store.Ascending rows) (he : effect e = .changed row.number)
    (hnumber : next.number = row.number)
    (hholds : ∀ text? : String → Option String, Holds row text? →
      Holds next fun field => (named? field e).or (text? field)) :
    Tracks (events ++ [e]) (Store.insertRow next (Store.without row rows)) where
  alive other hother := by
    have hmem : ∃ old ∈ rows, old.number = other.number := by
      rcases Store.mem_insertRow.1 hother with rfl | hold
      · exact ⟨row, hrow, hnumber.symm⟩
      · exact ⟨other, (List.mem_filter.1 hold).1, rfl⟩
    obtain ⟨old, hold, hsame⟩ := hmem
    obtain ⟨since, hlive⟩ := h.alive old hold
    rw [← hsame]
    exact ⟨_, hlive.concat (by simp [he])⟩
  present i since hlive := by
    rcases liveSince_concat_iff.1 hlive with ⟨hcreated, -⟩ | ⟨before, hbefore, rfl, -⟩
    · simp [he] at hcreated
    · by_cases hi : row.number = i
      · obtain ⟨found, hfound, hsame, hheld⟩ := h.present i before hbefore
        obtain rfl : found = row := Store.eq_of_number_eq hrows hfound hrow (hsame.trans hi.symm)
        refine ⟨next, Store.mem_insertRow.2 (.inl rfl), hnumber.trans hi, ?_⟩
        simpa only [textOf?_concat_of_writes (writes_iff.2 (.inr (hi ▸ he)))] using
          hholds _ hheld
      · obtain ⟨other, hother, hsame, hheld⟩ :=
          h.present_of_not_writes hbefore (e := e) (by simp [writes, he, hi])
        refine ⟨other, Store.mem_insertRow.2 (.inr (List.mem_filter.2 ⟨hother, ?_⟩)), hsame, hheld⟩
        simpa [hsame] using Ne.symm hi

theorem Tracks.destroyed (h : Tracks events rows) (he : effect e = .destroyed row.number) :
    Tracks (events ++ [e]) (Store.without row rows) where
  alive other hother := by
    obtain ⟨hmem, hne⟩ := List.mem_filter.1 hother
    obtain ⟨since, hlive⟩ := h.alive other hmem
    have hne' : row.number ≠ other.number := fun heq => by simp [heq] at hne
    exact ⟨_, hlive.concat (by simp [he, hne'])⟩
  present i since hlive := by
    rcases liveSince_concat_iff.1 hlive with ⟨hcreated, -⟩ | ⟨before, hbefore, rfl, hkept⟩
    · simp [he] at hcreated
    · have hne : row.number ≠ i := fun heq => hkept (heq ▸ he)
      obtain ⟨other, hother, hsame, hheld⟩ :=
        h.present_of_not_writes hbefore (e := e) (by simp [writes, he])
      refine ⟨other, List.mem_filter.2 ⟨hother, ?_⟩, hsame, hheld⟩
      simpa [hsame] using Ne.symm hne

/-! ### One request -/

variable {σ : Schema} {r : Resource} {state : State}

/-- The payload that a request carries is textual, when it carries one. -/
def IsTextual : Request → Prop
  | .write (.create payload) | .write (.update _ payload) => Textual payload
  | _ => True

theorem effect_of_error (request : Request) (error : ServiceError) :
    effect ⟨request, .error error⟩ = .nothing := by
  cases request with
  | index params requested => rfl
  | show_ address requested => rfl
  | write request => cases request <;> rfl

/-- Whatever comes of a request, the rows behind it are those that the history tells. -/
theorem tracks_serve (hr : IsPosts r) (hs : state.store.Sound σ) (hm : r.model ∈ σ.models)
    (now : Calendar.Moment) {request : Request} (htextual : IsTextual request)
    (h : Tracks events (state.store.rows model)) :
    Tracks (events ++ [⟨request, (r.serve now request state).result⟩])
      ((r.serve now request state).state.store.rows model) := by
  have hserves := serves_of_sound hs hm now request
  generalize (r.serve now request state).result = result,
    (r.serve now request state).state.store = after at hserves ⊢
  cases hserves with
  | listed => exact h.nothing rfl
  | shown => exact h.nothing rfl
  | failed request e => exact h.nothing (effect_of_error _ e)
  | lostCreation c hlost => exact absurd (isNamed_of_creation hr c) hlost
  | lostChange c hlost => exact absurd (isNamed_of_change hr c) hlost
  | created c =>
    have hrows := c.placed.rows hs hm
    have hfresh := c.placed.fresh
    rw [hr.model] at hrows hfresh
    rw [hrows]
    exact h.created (effect_of_creation hr c) hfresh (holds_of_creation hr c htextual)
  | changed c =>
    have hrows := c.placed.rows hs hm
    have hmem := c.mem
    have hascending := hs.ascending hm
    rw [hr.model] at hrows hmem hascending
    rw [hrows]
    exact h.changed hmem hascending (effect_of_change hr hs hm c) (number_of_change hr hs hm c)
      fun text? => holds_of_change hr hs hm c htextual
  | destroyed c =>
    have hrows := c.rows_eq hs hm
    rw [hr.model] at hrows
    rw [hrows]
    exact h.destroyed (effect_of_removal hr hs hm c)

/-- Over every run the rows of the posts are those that its history tells. -/
theorem tracks_run (hr : IsPosts r) (hs : state.store.Sound σ) (hm : r.model ∈ σ.models)
    (hempty : state.store.rows model = []) {requests : List (Calendar.Moment × Request)}
    (htextual : ∀ q ∈ requests, IsTextual q.2) :
    Tracks (r.log state requests) ((r.run state requests).store.rows model) := by
  induction requests using List.reverseRecOn with
  | nil =>
    rw [run_nil, hempty]
    exact tracks_nil
  | append_singleton requests q ih =>
    have hbefore := ih fun p hp => htextual p (List.mem_append_left _ hp)
    rw [run_concat, log_concat]
    exact tracks_serve hr (sound_run hs hm requests) hm q.1 (htextual q (by simp)) hbefore

/-! ### What requests tell -/

/-- The posts behave as a map from numbers to texts, of which the history of a run tells the
content. -/
structure IsMap (r : Resource) (events : List Event) (state : State) : Prop where
  /-- A live post is shown, with the texts that were last named for it. -/
  shown : ∀ address i since, idOf? address = some i → LiveSince events i since →
    (∀ requested, ∃ answer, r.show_ address requested state.store = .ok answer) ∧
      ∃ answer, r.show_ address none state.store = .ok answer ∧
        Entries.get? answer "id" = some (.int i) ∧
          ∀ field ∈ textFields, ∃ s, textOf? field i since = some s ∧
            Entries.get? answer field = some (.text s)
  /-- Any other number that the store can hold is answered with 404. -/
  missing : ∀ address i, idOf? address = some i → Number.fitsStore i = true →
    (∀ since, ¬ LiveSince events i since) →
      ∀ requested, r.show_ address requested state.store = .error (.refused .noRecord)
  /-- So is an address that denotes no number. -/
  unread : ∀ address, idOf? address = none →
    ∀ requested, r.show_ address requested state.store = .error (.refused .noRecord)
  /-- A number that the store cannot hold is that of no post, and the store refuses it. -/
  wide : ∀ address i, idOf? address = some i → Number.fitsStore i = false →
    (∀ since, ¬ LiveSince events i since) ∧
      ∀ requested, r.show_ address requested state.store = .error (.store (.bind .wideInteger))
  /-- A creation returns a number that no live post has, and its answer is what is shown then. -/
  created : ∀ now payload answer, (r.create now payload state).result = .ok answer →
    ∃ i, Entries.get? answer "id" = some (.int i) ∧ (∀ since, ¬ LiveSince events i since) ∧
      ∀ address, idOf? address = some i →
        r.show_ address none (r.create now payload state).state.store = .ok answer
  /-- The answer of a change is what is shown at its address then. -/
  changed : ∀ now address payload answer, (r.update now address payload state).result = .ok answer →
    r.show_ address none (r.update now address payload state).state.store = .ok answer
  /-- A listing that is not filtered answers, and its total is the number of live posts. -/
  total : ∀ params requested, Unfiltered params →
    ∃ answer ids, r.index params requested state.store = .ok answer ∧
      Entries.get? answer "total" = some (.int (List.length ids)) ∧ ids.Nodup ∧
        ∀ i, i ∈ ids ↔ ∃ since, LiveSince events i since

theorem show_eq (hr : IsPosts r) {store : Store} (hs : store.Sound σ) (hm : r.model ∈ σ.models)
    (address : Value) (requested : Option String) : r.show_ address requested store =
      match idOf? address with
      | none => .error (.refused .noRecord)
      | some i =>
        if Number.fitsStore i then
          ((store.rows model).find? (·.number == i)).elim (.error (.refused .noRecord)) fun row =>
            .ok (r.answerRow .show_ requested row)
        else .error (.store (.bind .wideInteger)) := by
  unfold show_
  rw [find_eq hs hm (by rw [hr.model]; rfl), hr.model]
  cases idOf? address with
  | none => rfl
  | some i =>
    simp only
    split
    · cases (store.rows model).find? (·.number == i) <;> rfl
    · rfl

/-- A row is shown at every address that denotes its number. -/
theorem show_of_mem (hr : IsPosts r) {store : Store} (hs : store.Sound σ) (hm : r.model ∈ σ.models)
    (hrow : row ∈ store.rows model) (hfits : Number.fitsStore row.number = true) {address : Value}
    (haddress : idOf? address = some row.number) (requested : Option String) :
    r.show_ address requested store = .ok (r.answerRow .show_ requested row) := by
  have hascending := hs.ascending hm
  rw [hr.model] at hascending
  rw [show_eq hr hs hm, haddress]
  simp only [if_pos hfits, Store.find?_number hascending hrow, Option.elim_some]

theorem isMap_of_tracks (hr : IsPosts r) (hs : state.store.Sound σ) (hm : r.model ∈ σ.models)
    (h : Tracks events (state.store.rows model)) : IsMap r events state where
  shown address i since haddress hlive := by
    obtain ⟨row, hrow, rfl, hholds⟩ := h.present i since hlive
    have hnumbers := hs.numbers hm
    rw [hr.model] at hnumbers
    refine ⟨fun requested => ⟨_, show_of_mem hr hs hm hrow hholds.fits haddress requested⟩, _,
      show_of_mem hr hs hm hrow hholds.fits haddress none, ?_⟩
    rw [answerRow_show hr]
    exact ⟨get?_answerRow_id hr (hnumbers row hrow),
      fun field hfield => hholds.get?_answerRow hr hfield⟩
  missing address i haddress hfits hdead requested := by
    rw [show_eq hr hs hm, haddress]
    simp only [if_pos hfits, h.find?_eq_none hdead, Option.elim_none]
  unread address haddress requested := by rw [show_eq hr hs hm, haddress]
  wide address i haddress hwide := by
    refine ⟨?_, ?_⟩
    · intro since hlive
      rw [h.fitsStore hlive] at hwide
      cases hwide
    · intro requested
      rw [show_eq hr hs hm, haddress]
      simp only [hwide, Bool.false_eq_true, if_false]
  created now payload answer hanswer := by
    obtain ⟨c, rfl, -⟩ := (create_of_sound hs hm now payload).of_ok hanswer
    have hafter := c.placed.sound hs hm (hs.ascending hm) (hs.numbers hm)
    have hrow := c.placed.mem hs hm
    have hnumbers := c.placed.numbers
    have hfresh := c.placed.fresh
    rw [hr.model] at hrow hnumbers hfresh
    refine ⟨c.row.number, get?_answerRow_id hr hnumbers, ?_, ?_⟩
    · intro since hlive
      obtain ⟨row, hold, hsame, -⟩ := h.present _ since hlive
      exact hfresh row hold hsame
    · intro address haddress
      rw [show_of_mem hr hafter hm hrow (number_of_creation hr c).2 haddress, answerRow_show hr]
  changed now address payload answer hanswer := by
    obtain ⟨c, rfl, -⟩ := (update_of_sound hs hm now address payload).of_ok hanswer
    have hafter := c.placed.sound hs hm (hs.ascending_without hm _) (hs.numbers_without hm _)
    have hrow := c.placed.mem hs hm
    rw [hr.model] at hrow
    obtain ⟨haddress, hfits⟩ := number_of_find hs hm (by rw [hr.model]; rfl) c.at_address
    rw [← number_of_change hr hs hm c] at haddress hfits
    rw [show_of_mem hr hafter hm hrow hfits haddress, answerRow_show hr]
  total params requested hunfiltered := by
    obtain ⟨answer, hanswer, htotal⟩ := index_of_unfiltered hr hunfiltered requested state.store
    refine ⟨answer, (state.store.rows model).map Row.number, hanswer, ?_, ?_,
      fun _ => h.mem_numbers_iff⟩
    · rw [List.length_map, htotal]
    · have hascending := hs.ascending hm
      rw [hr.model] at hascending
      exact List.pairwise_map.2 (hascending.imp Int.ne_of_lt)

/-- Over every run of requests that begins without posts, the posts behave as a map from numbers to
texts. -/
theorem posts_form_map {registry registry' : Registry}
    (hregister : Registry.register registry registration = .ok (registry', r))
    (hs : state.store.Sound σ) (hm : model ∈ σ.models) (hempty : state.store.rows model = [])
    {requests : List (Calendar.Moment × Request)}
    (htextual : ∀ q ∈ requests, IsTextual q.2) :
    IsMap r (r.log state requests) (r.run state requests) := by
  have hr := isPosts_of_register hregister
  rw [← hr.model] at hm
  exact isMap_of_tracks hr (sound_run hs hm requests) hm (tracks_run hr hs hm hempty htextual)

def noPosts : State := ⟨Store.empty [model], 0⟩

theorem exists_registered : ∃ registry r, Registry.register [] registration = .ok (registry, r) := by
  have hregistered : (Registry.register [] registration).toOption.isSome = true := by
    decide +kernel
  cases h : Registry.register [] registration with
  | ok p => exact ⟨p.1, p.2, rfl⟩
  | error e => simp [h, Except.toOption] at hregistered

/-- A post is published, gets another title and is destroyed, and a draft takes its number. -/
def replacement : List (Calendar.Moment × Request) := [
  (noon, .write (.create publishedPost)),
  (noon, .write (.update (.text "1") (.map [("title", .text "Second")]))),
  (noon, .write (.destroy (.text "1"))),
  (noon, .write (.create (.map [("title", .text "Third"), ("content", .text "Again")])))]

theorem posts_form_map_of_replacement : ∃ registry r,
    Registry.register [] registration = .ok (registry, r) ∧
      IsMap r (r.log noPosts replacement) (r.run noPosts replacement) := by
  obtain ⟨registry, r, hregister⟩ := exists_registered
  refine ⟨registry, r, hregister, ?_⟩
  refine posts_form_map hregister (Store.sound_empty postsSchema) (List.mem_singleton.2 rfl) rfl ?_
  intro q hq
  simp only [replacement, List.mem_cons, List.not_mem_nil, or_false] at hq
  rcases hq with rfl | rfl | rfl | rfl
  · exact textual_of_texts (by decide) (by simp)
  · exact textual_of_texts (by decide) (by simp)
  · trivial
  · exact textual_of_texts (by decide) (by simp)

/-- A number beyond those of the store is that of no post, and still it is not answered with 404. -/
theorem show_wide_number_ne_noRecord : ∃ registry r,
    Registry.register [] registration = .ok (registry, r) ∧
      idOf? (.text "9223372036854775808") = some 9223372036854775808 ∧
      (∀ since, ¬ LiveSince (r.log noPosts []) 9223372036854775808 since) ∧
      r.show_ (.text "9223372036854775808") none (r.run noPosts []).store ≠
        .error (.refused .noRecord) := by
  obtain ⟨registry, r, hregister⟩ := exists_registered
  have hr := isPosts_of_register hregister
  have hm : r.model ∈ postsSchema.models := by
    rw [hr.model]
    exact List.mem_singleton.2 rfl
  have hmap : IsMap r [] noPosts := isMap_of_tracks hr (Store.sound_empty postsSchema) hm tracks_nil
  have haddress : idOf? (.text "9223372036854775808") = some 9223372036854775808 := by
    decide +kernel
  obtain ⟨hdead, hshow⟩ := hmap.wide _ _ haddress (by decide)
  refine ⟨registry, r, hregister, haddress, hdead, ?_⟩
  rw [run_nil, hshow none]
  nofun

end TableApi.Posts
