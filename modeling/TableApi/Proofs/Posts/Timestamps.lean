import TableApi.Proofs.Calendar.Order
import TableApi.Proofs.Coercion.Shown
import TableApi.Proofs.Posts.Map

/-! The timestamps of posts. A post gets the time of its creation twice, as its beginning and as its
last change. No request touches the first again, and the second only moves to the time of a request
that changed this post; so over a run whose clock never goes back it never decreases. -/

namespace TableApi.Posts

open Calendar Resource

/-! ### Histories with times -/

/-- The history of a run: its events with their times. -/
def history (r : Resource) (state : State) (requests : List (Moment × Request)) :
    List (Moment × Event) :=
  (requests.map Prod.fst).zip (r.log state requests)

/-- A post was created at a time, and nothing since then destroyed it. -/
inductive BornAt : List (Moment × Event) → Int → Moment → Prop where
  | created {events : List (Moment × Event)} {i : Int} {t : Moment} {e : Event}
      (he : effect e = .created i) : BornAt (events ++ [(t, e)]) i t
  | lives {events : List (Moment × Event)} {i : Int} {t now : Moment} {e : Event}
      (h : BornAt events i t) (he : effect e ≠ .destroyed i) : BornAt (events ++ [(now, e)]) i t

/-- A clock that never goes back: it tells universal time, and nothing that it tells is before what
it told earlier. -/
structure NeverBack (times : List Moment) : Prop where
  universal : ∀ t ∈ times, t.offset? = some Offset.utc
  ordered : times.Pairwise fun t u => t.localMicros ≤ u.localMicros

/-- A post has these times as those of its creation and of its last change. -/
structure Dated (row : Row) (created updated : Moment) : Prop where
  created : row.cell "created_at" = .text (ParameterType.momentText created)
  updated : row.cell "updated_at" = .text (ParameterType.momentText updated)

variable {r : Resource} {state : State} {requests front back : List (Moment × Request)}
  {events : List (Moment × Event)} {e : Event} {i : Int} {t u now : Moment}
  {rows after : List Row} {row next : Row}

theorem length_log (r : Resource) (state : State) (requests : List (Moment × Request)) :
    (r.log state requests).length = requests.length := by
  induction requests generalizing state with
  | nil => rfl
  | cons q rest ih => exact congrArg Nat.succ (ih _)

theorem map_fst_history (r : Resource) (state : State) (requests : List (Moment × Request)) :
    (history r state requests).map Prod.fst = requests.map Prod.fst :=
  List.map_fst_zip (by rw [length_log, List.length_map])

theorem history_concat (r : Resource) (state : State) (requests : List (Moment × Request))
    (q : Moment × Request) : history r state (requests ++ [q]) = history r state requests ++
      [(q.1, ⟨q.2, (r.serve q.1 q.2 (r.run state requests)).result⟩)] := by
  unfold history
  rw [log_concat, List.map_append, List.zip_append (by rw [length_log, List.length_map])]
  rfl

theorem not_bornAt_nil : ¬ BornAt [] i t := by
  intro h
  generalize hevents : ([] : List (Moment × Event)) = events at h
  cases h <;> simp at hevents

theorem bornAt_concat_iff : BornAt (events ++ [(now, e)]) i t ↔
    effect e = .created i ∧ t = now ∨ BornAt events i t ∧ effect e ≠ .destroyed i := by
  constructor
  · intro h
    generalize happend : events ++ [(now, e)] = all at h
    cases h with
    | created he =>
      obtain ⟨-, hlast⟩ := List.append_inj' happend rfl
      obtain ⟨rfl, rfl⟩ : now = t ∧ e = _ := by simpa using hlast
      exact .inl ⟨he, rfl⟩
    | lives h he =>
      obtain ⟨rfl, hlast⟩ := List.append_inj' happend rfl
      obtain ⟨-, rfl⟩ : now = _ ∧ e = _ := by simpa using hlast
      exact .inr ⟨h, he⟩
  · rintro (⟨hcreated, rfl⟩ | ⟨hborn, hkept⟩)
    · exact .created hcreated
    · exact .lives hborn hkept

/-! ### One request -/

/-- A request at a time leaves the creation of a post as it is, and moves its last change to that
time or leaves it as well. -/
structure Ages (now : Moment) (e : Event) (row next : Row) : Prop where
  number : next.number = row.number
  created : next.cell "created_at" = row.cell "created_at"
  updated : next.cell "updated_at" = row.cell "updated_at" ∨ effect e = .changed row.number ∧
    next.cell "updated_at" = .text (ParameterType.momentText now)

theorem Ages.refl (now : Moment) (e : Event) (row : Row) : Ages now e row row :=
  ⟨rfl, rfl, .inl rfl⟩

/-- What an event at a time makes of the posts: a created post is a new one with this time, and
every other one that is not destroyed ages. -/
structure Turn (now : Moment) (e : Event) (rows after : List Row) : Prop where
  created : ∀ i, effect e = .created i → Number.fitsStore i = true ∧
    (∀ row ∈ rows, row.number ≠ i) ∧ ∃ row ∈ after, row.number = i ∧ Dated row now now
  ages : ∀ row ∈ rows, effect e ≠ .destroyed row.number → ∃ next ∈ after, Ages now e row next
  origin : ∀ next ∈ after, effect e = .created next.number ∨
    effect e ≠ .destroyed next.number ∧ ∃ row ∈ rows, row.number = next.number

theorem turn_of_nothing (h : effect e = .nothing) (now : Moment) (rows : List Row) :
    Turn now e rows rows where
  created i hi := by simp [h] at hi
  ages row hrow _ := ⟨row, hrow, .refl now e row⟩
  origin row hrow := .inr ⟨by simp [h], row, hrow, rfl⟩

theorem turn_of_created (h : effect e = .created row.number)
    (hfits : Number.fitsStore row.number = true) (hfresh : Store.Fresh row rows)
    (hdated : Dated row now now) : Turn now e rows (Store.insertRow row rows) where
  created i hi := by
    obtain rfl : row.number = i := by simpa [h] using hi
    exact ⟨hfits, hfresh, row, Store.mem_insertRow.2 (.inl rfl), rfl, hdated⟩
  ages old hold _ := ⟨old, Store.mem_insertRow.2 (.inr hold), .refl now e old⟩
  origin next hnext := by
    rcases Store.mem_insertRow.1 hnext with rfl | hold
    · exact .inl h
    · exact .inr ⟨by simp [h], next, hold, rfl⟩

theorem turn_of_changed (hrow : row ∈ rows) (hrows : Store.Ascending rows)
    (h : effect e = .changed row.number) (hages : Ages now e row next) :
    Turn now e rows (Store.insertRow next (Store.without row rows)) where
  created i hi := by simp [h] at hi
  ages old hold _ := by
    by_cases hsame : old.number = row.number
    · obtain rfl : old = row := Store.eq_of_number_eq hrows hold hrow hsame
      exact ⟨next, Store.mem_insertRow.2 (.inl rfl), hages⟩
    · refine ⟨old, Store.mem_insertRow.2 (.inr (List.mem_filter.2 ⟨hold, ?_⟩)), .refl now e old⟩
      simpa using hsame
  origin other hother := by
    refine .inr ⟨by simp [h], ?_⟩
    rcases Store.mem_insertRow.1 hother with rfl | hold
    · exact ⟨row, hrow, hages.number.symm⟩
    · exact ⟨other, (List.mem_filter.1 hold).1, rfl⟩

theorem turn_of_destroyed (h : effect e = .destroyed row.number) (now : Moment) (rows : List Row) :
    Turn now e rows (Store.without row rows) where
  created i hi := by simp [h] at hi
  ages old hold hkept := by
    have hne : old.number ≠ row.number := fun heq => hkept (by rw [h, heq])
    exact ⟨old, List.mem_filter.2 ⟨hold, by simpa using hne⟩, .refl now e old⟩
  origin other hother := by
    obtain ⟨hmem, hne⟩ := List.mem_filter.1 hother
    have hne' : other.number ≠ row.number := by simpa using hne
    exact .inr ⟨by simp [h, hne'.symm], other, hmem, rfl⟩

/-! ### Stamps -/

variable {σ : Schema} {payload address : Value} {before : State} {store after' : Store}

/-- A column of posts that keeps a time, which is out of reach for payloads. -/
structure IsStamp (c : Column) : Prop where
  found : model.column? c.field = some c
  name : c.name = c.field
  kind : c.kind = .moment
  default : c.default? = some .now
  unnumbered : model.rowNumber?.map Column.name ≠ some c.name
  unpermitted : c.field ∉ ["title", "content", "status", "published_at"]

theorem exists_isStamp {field : String} (h : field ∈ ["created_at", "updated_at"]) :
    ∃ c, c.field = field ∧ IsStamp c ∧ c.stampedOnUpdate = (field == "updated_at") := by
  simp only [List.mem_cons, List.not_mem_nil, or_false] at h
  rcases h with rfl | rfl
  · exact ⟨model.columns[5], rfl, ⟨rfl, rfl, rfl, rfl, by decide, by decide⟩, rfl⟩
  · exact ⟨model.columns[6], rfl, ⟨rfl, rfl, rfl, rfl, by decide, by decide⟩, rfl⟩

theorem IsStamp.mem {c : Column} (h : IsStamp c) : c ∈ model.columns :=
  List.mem_of_find?_eq_some h.found

theorem IsStamp.notMem_keys {c : Column} (h : IsStamp c) (hr : IsPosts r) {isUpdate : Bool}
    {clean : Record} (hclean : r.sanitize payload isUpdate = .ok clean) :
    c.field ∉ Entries.keys clean := by
  intro hnamed
  rw [keys_of_sanitize hclean] at hnamed
  have hpermitted := namedFields_subset_of_sanitize hclean c.field hnamed
  rw [hr.permitted] at hpermitted
  exact h.unpermitted hpermitted

/-- A created post has the time of its creation in both columns. -/
theorem dated_of_creation (hr : IsPosts r) (c : Creation r now payload before after') :
    Dated c.row now now := by
  have hinserted := inserted_of_creation hr c
  have hcell (field : String) (hfield : field ∈ ["created_at", "updated_at"]) :
      c.row.cell field = .text (ParameterType.momentText now) := by
    obtain ⟨d, rfl, hd, -⟩ := exists_isStamp hfield
    have hpublished : d.field ≠ "published_at" := fun heq =>
      hd.unpermitted (by rw [heq]; decide)
    have hunset : Entries.get? c.record d.field = none := by
      rw [record_of_creation hr c hpublished, Entries.get?_eq_none_iff]
      exact hd.notMem_keys hr c.sanitized
    rw [← hd.name, Store.cell_of_insert_unset names_nodup hinserted hd.mem hunset,
      Store.defaultCell, if_neg hd.unnumbered, hd.default]
    exact Column.kept_moment hd.kind now
  exact ⟨hcell _ (by decide), hcell _ (by decide)⟩

/-- A changed post keeps the time of its creation, and gets at most a new time of its last
change. -/
theorem ages_of_change (hr : IsPosts r) (hs : store.Sound σ) (hm : r.model ∈ σ.models)
    (c : Change r now address payload store after') (he : effect e = .changed c.found.number) :
    Ages now e c.found c.row := by
  have hwritten := written_of_change hr c
  have hsame {d : Column} (hd : IsStamp d) :
      Record.value (Entries.putAll (Record.ofRow model c.found) c.clean) d.field =
        Record.value (Record.ofRow model c.found) d.field := by
    rw [Record.value, Record.value, Entries.get?_putAll_of_notMem (hd.notMem_keys hr c.sanitized)]
  refine ⟨number_of_change hr hs hm c, ?_, ?_⟩
  · obtain ⟨d, hfield, hd, hstamped⟩ := exists_isStamp
      (show "created_at" ∈ ["created_at", "updated_at"] by decide)
    rw [← hfield, ← hd.name]
    exact Store.cell_of_update_same names_nodup hwritten hd.mem (hsame hd) hstamped
  · obtain ⟨d, hfield, hd, -⟩ := exists_isStamp
      (show "updated_at" ∈ ["created_at", "updated_at"] by decide)
    rw [← hfield, ← hd.name]
    rcases Store.cell_of_update_cases names_nodup hwritten hd.mem with
      hkept | ⟨hdiffers, -⟩ | ⟨-, hstamped⟩
    · exact .inl hkept
    · rw [hsame hd, Store.differs_self] at hdiffers
      cases hdiffers
    · exact .inr ⟨he, hstamped.trans (Column.kept_moment hd.kind now)⟩

/-- Whatever comes of a request, it makes such a turn of the posts. -/
theorem turn_serve (hr : IsPosts r) (hs : state.store.Sound σ) (hm : r.model ∈ σ.models)
    (now : Moment) (request : Request) :
    Turn now ⟨request, (r.serve now request state).result⟩ (state.store.rows model)
      ((r.serve now request state).state.store.rows model) := by
  have hserves := serves_of_sound hs hm now request
  generalize (r.serve now request state).result = result,
    (r.serve now request state).state.store = after at hserves ⊢
  cases hserves with
  | listed => exact turn_of_nothing rfl now _
  | shown => exact turn_of_nothing rfl now _
  | failed request e => exact turn_of_nothing (effect_of_error _ e) now _
  | lostCreation c hlost => exact absurd (isNamed_of_creation hr c) hlost
  | lostChange c hlost => exact absurd (isNamed_of_change hr c) hlost
  | created c =>
    have hrows := c.placed.rows hs hm
    have hfresh := c.placed.fresh
    rw [hr.model] at hrows hfresh
    rw [hrows]
    exact turn_of_created (effect_of_creation hr c) (number_of_creation hr c).2 hfresh
      (dated_of_creation hr c)
  | changed c =>
    have hrows := c.placed.rows hs hm
    have hmem := c.mem
    have hascending := hs.ascending hm
    rw [hr.model] at hrows hmem hascending
    rw [hrows]
    exact turn_of_changed hmem hascending (effect_of_change hr hs hm c)
      (ages_of_change hr hs hm c (effect_of_change hr hs hm c))
  | destroyed c =>
    have hrows := c.rows_eq hs hm
    rw [hr.model] at hrows
    rw [hrows]
    exact turn_of_destroyed (effect_of_removal hr hs hm c) now _

/-! ### Runs -/

/-- The posts are those that a history tells to be born and not destroyed, each with the time of its
creation and with a later time of the history for its last change. -/
structure Remembers (events : List (Moment × Event)) (rows : List Row) : Prop where
  fits : ∀ row ∈ rows, Number.fitsStore row.number = true
  alive : ∀ row ∈ rows, ∃ t, BornAt events row.number t
  present : ∀ i t, BornAt events i t → ∃ row ∈ rows, row.number = i ∧
    ∃ u ∈ events.map Prod.fst, Dated row t u ∧ t.localMicros ≤ u.localMicros

theorem remembers_nil : Remembers [] [] where
  fits _ hrow := absurd hrow List.not_mem_nil
  alive _ hrow := absurd hrow List.not_mem_nil
  present _ _ hborn := absurd hborn not_bornAt_nil

theorem Ages.exists_dated (h : Ages now e row next) (hdated : Dated row t u)
    (hu : u.localMicros ≤ now.localMicros) :
    ∃ u', (u' = u ∨ u' = now) ∧ Dated next t u' ∧ u.localMicros ≤ u'.localMicros := by
  have hcreated := h.created.trans hdated.created
  rcases h.updated with hkept | ⟨-, hstamped⟩
  · exact ⟨u, .inl rfl, ⟨hcreated, hkept.trans hdated.updated⟩, Int.le_refl _⟩
  · exact ⟨now, .inr rfl, ⟨hcreated, hstamped⟩, hu⟩

theorem Remembers.turn (h : Remembers events rows) (hturn : Turn now e rows after)
    (hnow : ∀ u ∈ events.map Prod.fst, u.localMicros ≤ now.localMicros) :
    Remembers (events ++ [(now, e)]) after where
  fits next hnext := by
    rcases hturn.origin next hnext with hcreated | ⟨-, row, hrow, hnumber⟩
    · exact (hturn.created _ hcreated).1
    · rw [← hnumber]
      exact h.fits row hrow
  alive next hnext := by
    rcases hturn.origin next hnext with hcreated | ⟨hkept, row, hrow, hnumber⟩
    · exact ⟨now, bornAt_concat_iff.2 (.inl ⟨hcreated, rfl⟩)⟩
    · obtain ⟨t, hborn⟩ := h.alive row hrow
      rw [hnumber] at hborn
      exact ⟨t, bornAt_concat_iff.2 (.inr ⟨hborn, hkept⟩)⟩
  present i t hborn := by
    rw [List.map_append]
    rcases bornAt_concat_iff.1 hborn with ⟨hcreated, rfl⟩ | ⟨hbefore, hkept⟩
    · obtain ⟨-, -, row, hrow, hnumber, hdated⟩ := hturn.created i hcreated
      exact ⟨row, hrow, hnumber, t, by simp, hdated, Int.le_refl _⟩
    · obtain ⟨row, hrow, rfl, u, hu, hdated, hle⟩ := h.present i t hbefore
      obtain ⟨next, hnext, hages⟩ := hturn.ages row hrow hkept
      obtain ⟨u', htime, hdated', hle'⟩ := hages.exists_dated hdated (hnow u hu)
      refine ⟨next, hnext, hages.number, u', ?_, hdated', hle.trans hle'⟩
      rcases htime with rfl | rfl
      · exact List.mem_append_left _ hu
      · exact List.mem_append_right _ (List.mem_singleton.2 rfl)

theorem NeverBack.of_append {times later : List Moment} (h : NeverBack (times ++ later)) :
    NeverBack times where
  universal t ht := h.universal t (List.mem_append_left _ ht)
  ordered := (List.pairwise_append.1 h.ordered).1

/-- Over every run from an empty table the posts are those that its history tells. -/
theorem remembers_run (hr : IsPosts r) (hs : state.store.Sound σ) (hm : r.model ∈ σ.models)
    (hempty : state.store.rows model = []) (hclock : NeverBack (requests.map Prod.fst)) :
    Remembers (history r state requests) ((r.run state requests).store.rows model) := by
  induction requests using List.reverseRecOn with
  | nil =>
    rw [run_nil, hempty]
    exact remembers_nil
  | append_singleton requests q ih =>
    rw [List.map_append] at hclock
    rw [run_concat, history_concat]
    refine (ih hclock.of_append).turn (turn_serve hr (sound_run hs hm requests) hm q.1 q.2) ?_
    intro u hu
    rw [map_fst_history] at hu
    exact (List.pairwise_append.1 hclock.ordered).2.2 u hu q.1 (by simp)

/-- A post that is not destroyed in the second part of a run keeps the time of its creation, and its
last change does not move back, by induction over that part. -/
theorem exists_dated_of_kept (hr : IsPosts r) (hs : state.store.Sound σ) (hm : r.model ∈ σ.models)
    (hempty : state.store.rows model = []) (hclock : NeverBack ((front ++ back).map Prod.fst))
    (hborn : BornAt (history r state front) i t)
    (hkept : ∀ e ∈ r.log (r.run state front) back, effect e ≠ .destroyed i) :
    ∃ row ∈ (r.run state front).store.rows model,
      ∃ next ∈ (r.run state (front ++ back)).store.rows model, row.number = i ∧ next.number = i ∧
        ∃ u, ∃ u' ∈ (front ++ back).map Prod.fst, Dated row t u ∧ Dated next t u' ∧
          u.localMicros ≤ u'.localMicros := by
  induction back using List.reverseRecOn with
  | nil =>
    rw [List.append_nil] at hclock ⊢
    obtain ⟨row, hrow, hnumber, u, hu, hdated, -⟩ :=
      (remembers_run hr hs hm hempty hclock).present i t hborn
    rw [map_fst_history] at hu
    exact ⟨row, hrow, row, hrow, hnumber, hnumber, u, u, hu, hdated, hdated, Int.le_refl _⟩
  | append_singleton back q ih =>
    rw [← List.append_assoc, List.map_append] at hclock
    rw [log_concat] at hkept
    obtain ⟨row, hrow, next, hnext, hrow', hnext', u, u', hu', hdated, hdated', hle⟩ :=
      ih hclock.of_append fun e he => hkept e (List.mem_append_left _ he)
    have hnow := (List.pairwise_append.1 hclock.ordered).2.2 u' hu' q.1 (by simp)
    have hturn := turn_serve hr (sound_run hs hm (front ++ back)) hm q.1 q.2
    have hlast := hkept _ (List.mem_append_right _ (List.mem_singleton.2 rfl))
    rw [← run_append, ← hnext'] at hlast
    obtain ⟨later, hlater, hages⟩ := hturn.ages next hnext hlast
    obtain ⟨u'', htime, hdated'', hle'⟩ := hages.exists_dated hdated' hnow
    rw [← List.append_assoc, run_concat, List.map_append]
    refine ⟨row, hrow, later, hlater, hrow', hages.number.trans hnext', u, u'', ?_, hdated, hdated'',
      hle.trans hle'⟩
    rcases htime with rfl | rfl
    · exact List.mem_append_left _ hu'
    · exact List.mem_append_right _ (by simp)

/-- A post that is there before and after a request has another time of its last change only where
the request changed it. -/
theorem changed_of_updated_ne (hr : IsPosts r) (hs : state.store.Sound σ) (hm : r.model ∈ σ.models)
    (now : Moment) (request : Request) (hrow : row ∈ state.store.rows model)
    (hnext : next ∈ (r.serve now request state).state.store.rows model)
    (hnumber : next.number = row.number)
    (hmoved : next.cell "updated_at" ≠ row.cell "updated_at") :
    ∃ address payload answer, request = .write (.update address payload) ∧
      idOf? address = some row.number ∧ (r.serve now request state).result = .ok answer := by
  have hturn := turn_serve hr hs hm now request
  have hascending := (sound_serve hs hm now request).ascending hm
  rw [hr.model] at hascending
  rcases hturn.origin next hnext with hcreated | ⟨hkept, -⟩
  · rw [hnumber] at hcreated
    exact absurd rfl ((hturn.created _ hcreated).2.1 row hrow)
  · rw [hnumber] at hkept
    obtain ⟨later, hlater, hages⟩ := hturn.ages row hrow hkept
    obtain rfl : later = next :=
      Store.eq_of_number_eq hascending hlater hnext (hages.number.trans hnumber.symm)
    obtain ⟨heffect, -⟩ := hages.updated.resolve_left hmoved
    exact of_effect_eq_changed heffect

/-! ### The timestamps -/

def payloadOf : WriteRequest → Value
  | .create payload | .update _ payload => payload
  | .destroy _ => .null

/-- A request whose payload names a time of a post is refused and changes nothing. -/
theorem refused_of_named (hr : IsPosts r) (hs : state.store.Sound σ) (hm : r.model ∈ σ.models)
    (now : Moment) (request : WriteRequest) {field : String}
    (hfield : field ∈ ["created_at", "updated_at"])
    (hnamed : field ∈ namedFields (payloadOf request)) :
    (∃ e, (r.perform now request state).result = .error e) ∧
      (r.perform now request state).state.store = state.store := by
  have hserves := serves_of_sound hs hm now (.write request)
  have hstamps : ∀ name ∈ ["created_at", "updated_at"],
      name ∉ ["title", "content", "status", "published_at"] := by decide
  have hunpermitted : field ∉ r.permitted := by
    rw [hr.permitted]
    exact hstamps field hfield
  change (∃ e, (r.serve now (.write request) state).result = .error e) ∧
    (r.serve now (.write request) state).state.store = state.store
  generalize (r.serve now (.write request) state).result = result,
    (r.serve now (.write request) state).state.store = after at hserves ⊢
  cases hserves with
  | failed request e => exact ⟨⟨e, rfl⟩, rfl⟩
  | lostCreation c | created c | lostChange c | changed c =>
    exact absurd (namedFields_subset_of_sanitize c.sanitized field hnamed) hunpermitted
  | destroyed c => cases hnamed

def shownTime (t : Moment) : Value := .text (Moment.text ⟨t.date, t.time, none⟩)

theorem get?_answerRow_stamp (hr : IsPosts r) {field : String}
    (hfield : field ∈ ["created_at", "updated_at"])
    (hcell : row.cell field = .text (ParameterType.momentText t)) :
    Entries.get? (r.answerRow .write none row) field = some (shownTime t) := by
  obtain ⟨d, rfl, hd, -⟩ := exists_isStamp hfield
  rw [get?_answerRow hr hd.found, hd.name, hcell, hd.kind, load_moment]
  rfl

/-- The timestamps of posts over a run of requests. -/
structure Timestamps (r : Resource) (state : State) (requests : List (Moment × Request)) :
    Prop where
  /-- Every post was born in the run. -/
  alive : ∀ row ∈ (r.run state requests).store.rows model,
    ∃ t, BornAt (history r state requests) row.number t
  /-- A post that is alive has the time of the request that created it, and its last change was not
  before that. -/
  dated : ∀ i t, BornAt (history r state requests) i t →
    ∃ row ∈ (r.run state requests).store.rows model, row.number = i ∧
      ∃ u, Dated row t u ∧ t.localMicros ≤ u.localMicros
  /-- It is shown with these times. -/
  shown : ∀ row ∈ (r.run state requests).store.rows model, ∀ t u, Dated row t u →
    ∀ address, idOf? address = some row.number →
      ∃ answer, r.show_ address none (r.run state requests).store = .ok answer ∧
        Entries.get? answer "created_at" = some (shownTime t) ∧
        Entries.get? answer "updated_at" = some (shownTime u)
  /-- From any point of the run on, as long as it is not destroyed, the first time stays and the
  second never decreases. -/
  kept : ∀ front back, requests = front ++ back → ∀ i t, BornAt (history r state front) i t →
    (∀ e ∈ r.log (r.run state front) back, effect e ≠ .destroyed i) →
      ∃ row ∈ (r.run state front).store.rows model,
        ∃ next ∈ (r.run state requests).store.rows model, row.number = i ∧ next.number = i ∧
          ∃ u u', Dated row t u ∧ Dated next t u' ∧ u.localMicros ≤ u'.localMicros
  /-- The second time of a post differs behind a request only where that was a successful change of
  this post. -/
  touched : ∀ front now request back, requests = front ++ (now, request) :: back →
    ∀ row ∈ (r.run state front).store.rows model,
      ∀ next ∈ (r.run state (front ++ [(now, request)])).store.rows model,
        next.number = row.number → next.cell "updated_at" ≠ row.cell "updated_at" →
          ∃ address payload answer, request = .write (.update address payload) ∧
            idOf? address = some row.number ∧
            (r.serve now request (r.run state front)).result = .ok answer
  /-- No payload can set either of them. -/
  closed : ∀ now request field, field ∈ ["created_at", "updated_at"] →
    field ∈ namedFields (payloadOf request) →
      (∃ e, (r.perform now request (r.run state requests)).result = .error e) ∧
        (r.perform now request (r.run state requests)).state.store = (r.run state requests).store

/-- Over every run of requests that begins without posts, under a clock that never goes back, the
timestamps of the posts are sound. -/
theorem timestamps_sound {registry registry' : Registry}
    (hregister : Registry.register registry registration = .ok (registry', r))
    (hs : state.store.Sound σ) (hm : model ∈ σ.models) (hempty : state.store.rows model = [])
    (hclock : NeverBack (requests.map Prod.fst)) : Timestamps r state requests := by
  have hr := isPosts_of_register hregister
  rw [← hr.model] at hm
  have hafter := sound_run hs hm requests
  have hremembers := remembers_run hr hs hm hempty hclock
  refine ⟨hremembers.alive, ?_, ?_, ?_, ?_, fun now request field => refused_of_named hr hafter hm now
    request⟩
  · intro i t hborn
    obtain ⟨row, hrow, hnumber, u, -, hdated, hle⟩ := hremembers.present i t hborn
    exact ⟨row, hrow, hnumber, u, hdated, hle⟩
  · intro row hrow t u hdated address haddress
    refine ⟨_, show_of_mem hr hafter hm hrow (hremembers.fits row hrow) haddress none, ?_⟩
    rw [answerRow_show hr]
    exact ⟨get?_answerRow_stamp hr (by decide) hdated.created,
      get?_answerRow_stamp hr (by decide) hdated.updated⟩
  · rintro front back rfl i t hborn hkept
    obtain ⟨row, hrow, next, hnext, hrow', hnext', u, u', -, hdated, hdated', hle⟩ :=
      exists_dated_of_kept hr hs hm hempty hclock hborn hkept
    exact ⟨row, hrow, next, hnext, hrow', hnext', u, u', hdated, hdated', hle⟩
  · rintro front now request back rfl row hrow next hnext hnumber hmoved
    rw [run_concat] at hnext
    exact changed_of_updated_ne hr (sound_run hs hm front) hm now request hrow hnext hnumber hmoved

/-- Seconds after noon in universal time. -/
def tick (second : Fin 60) : Moment :=
  ⟨noon.date, ⟨12, 0, second, 0, by have := second.isLt; omega⟩, some Offset.utc⟩

/-- A post is published, is given the status that it has, is refused another time of its creation,
and gets another title. -/
def retouching : List (Moment × Request) := [
  (tick 0, .write (.create publishedPost)),
  (tick 1, .write (.update (.text "1") (.map [("status", .text "published")]))),
  (tick 2, .write (.update (.text "1") (.map [("title", .text "First"), ("created_at", .null)]))),
  (tick 3, .write (.update (.text "1") (.map [("title", .text "Second")])))]

theorem timestamps_of_retouching : ∃ registry r,
    Registry.register [] registration = .ok (registry, r) ∧ Timestamps r noPosts retouching ∧
      ((r.run noPosts retouching).store.rows model).map (fun row =>
        (row.cell "created_at", row.cell "updated_at")) =
        [(.text (ParameterType.momentText (tick 0)), .text (ParameterType.momentText (tick 3)))] := by
  have hfacts : (Registry.register [] registration).toOption.map (fun p =>
      ((p.2.run noPosts retouching).store.rows model).map fun row =>
        (row.cell "created_at", row.cell "updated_at")) =
        some [(.text (ParameterType.momentText (tick 0)),
          .text (ParameterType.momentText (tick 3)))] := by
    decide +kernel
  obtain ⟨⟨registry, r⟩, hregister, hrows⟩ := exists_of_toOption_map hfacts
  refine ⟨registry, r, hregister, ?_, hrows⟩
  exact timestamps_sound hregister (Store.sound_empty postsSchema) (List.mem_singleton.2 rfl) rfl
    ⟨by decide, by decide⟩

end TableApi.Posts
