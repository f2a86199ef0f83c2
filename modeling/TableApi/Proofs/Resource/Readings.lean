import TableApi.Proofs.Calendar.Order
import TableApi.Proofs.Resource.Address
import TableApi.Proofs.Resource.Findable

/-! Times in columns of moments. A time that is sent is coerced to a moment with an offset, of which
the store keeps the local reading alone: the offset is left out and the reading is not moved to
universal time. So times are read back and compared by their readings, which stand as their instants
do where their offsets are the same. -/

namespace TableApi

open Calendar

namespace Comparison

/-- Whether two integers stand as a comparison says. -/
def Relates : Comparison → Int → Int → Prop
  | equal, x, y => x = y
  | unequal, x, y => x ≠ y
  | greater, x, y => x > y
  | greaterEqual, x, y => x ≥ y
  | less, x, y => x < y
  | lessEqual, x, y => x ≤ y

theorem admits_compare_iff (cmp : Comparison) (x y : Int) :
    cmp.admits (compare x y) = true ↔ cmp.Relates x y := by
  rcases Int.lt_trichotomy x y with h | h | h
  · rw [compare_lt_iff_lt.2 h]
    cases cmp <;> simp [admits, Relates] <;> omega
  · rw [compare_eq_iff_eq.2 h]
    cases cmp <;> simp [admits, Relates] <;> omega
  · rw [compare_gt_iff_gt.2 h]
    cases cmp <;> simp [admits, Relates] <;> omega

instance (cmp : Comparison) (x y : Int) : Decidable (cmp.Relates x y) :=
  decidable_of_iff _ (cmp.admits_compare_iff x y)

theorem relates_sub_iff (cmp : Comparison) (x y d : Int) :
    cmp.Relates (x - d) (y - d) ↔ cmp.Relates x y := by
  cases cmp <;> simp only [Relates] <;> omega

end Comparison

namespace Resource

open Listing

variable {σ : Schema} {r : Resource} {c : Column} {field : String}

/-! ### What a creation keeps -/

/-- Hooks around a creation that leave a column alone: the one in front may only fill it where it is
null, and the one behind changes it neither itself nor through the time of a change. -/
structure HooksLeave (r : Resource) (c : Column) : Prop where
  before : ∀ input answer record, r.runHook .beforeCreate input = .ok (answer, record) →
    (input.record.value c.field).isNull = false →
      record.value c.field = input.record.value c.field
  after : ∀ input answer record, r.runHook .afterCreate input = .ok (answer, record) →
    record.value c.field = input.record.value c.field
  stamped : c.stampedOnUpdate = true → ∀ input answer record,
    r.runHook .afterCreate input = .ok (answer, record) → record = input.record

theorem hooksLeave_of_nil (h : r.hooks = []) (c : Column) : r.HooksLeave c := by
  have hrun : ∀ point input answer record, r.runHook point input = .ok (answer, record) →
      record = input.record := by
    intro point input answer record hrun
    simp only [runHook, hook?, h, List.lookup_nil] at hrun
    cases hrun
    rfl
  refine ⟨?_, ?_, fun _ => hrun _⟩
  · intro input answer record hok _
    rw [hrun _ input answer record hok]
  · intro input answer record hok
    rw [hrun _ input answer record hok]

section Kept

variable (hnames : (r.model.columns.map Column.name).Nodup)
  (hcolumn : r.model.column? field = some c) (hleaves : r.HooksLeave c)
include hnames hcolumn hleaves

/-- A created row keeps the cleaned value of a field that its hooks leave alone, unless the column
numbers the rows. -/
theorem Creation.cell_eq_kept {now : Moment} {entries : Entries Value} {before : State}
    {after : Store} (cr : Creation r now (.map entries) before after)
    (hnumber : r.model.rowNumber?.map Column.name ≠ some c.name) {v x : Value}
    (hv : Entries.get? entries field = some v) (hx : cleanValue c v = .ok x)
    (hnull : x.isNull = false) : cr.row.cell c.name = c.kept x := by
  have hc : c ∈ r.model.columns := List.mem_of_find?_eq_some hcolumn
  have hfield := Model.field_of_column? hcolumn
  have hclean : Entries.get? cr.clean c.field = some x := by
    obtain ⟨entries', hentries, -, hall⟩ := of_sanitize cr.sanitized
    cases hentries
    rcases get?_cleanAll hall field with ⟨hnone, -⟩ | ⟨d, w, y, hd, hw, hy, hget⟩
    · cases hv.symm.trans hnone
    · cases hcolumn.symm.trans hd
      cases hv.symm.trans hw
      cases hx.symm.trans hy
      rw [hfield, hget]
  have hpassed : Entries.get? cr.record c.field = some x := by
    have hvalue : Record.value cr.clean c.field = x := by rw [Record.value, hclean]; rfl
    have hsame := hleaves.before _ _ _ cr.passed (by rw [hvalue]; exact hnull)
    rw [hvalue, Record.value] at hsame
    cases hget : Entries.get? cr.record c.field with
    | some y => rw [← hsame, hget, Option.getD_some]
    | none =>
      rw [hget, Option.getD_none] at hsame
      rw [← hsame] at hnull
      cases hnull
  have hsent : Record.sent? ⟨now, before.drawn⟩ cr.record c = some x := by
    rw [Record.sent?, hpassed]
    cases x with
    | null => cases hnull
    | _ => rfl
  have hadded : cr.added.cell c.name = c.kept x := by
    rw [Store.cell_of_insert hnames cr.inserted hc, if_neg hnumber, hsent]
    rfl
  cases hstamped : c.stampedOnUpdate with
  | false =>
    rw [Store.cell_of_update_same hnames cr.updated hc (hleaves.after _ _ _ cr.followed) hstamped,
      hadded]
  | true =>
    have hupdated := cr.updated
    rw [hleaves.stamped hstamped _ _ _ cr.followed, Store.update_self] at hupdated
    rw [← (Prod.mk.inj (Except.ok.inj hupdated)).2, hadded]

end Kept

/-! ### Moments -/

section Moments

variable {a b : String} {m n : Moment}

theorem coerce_moment_text (h : Coercion.toMoment? (.text a) = some (.moment m)) :
    coerce .moment (.text a) = .ok (.moment m) := by
  rw [Coercion.coerce_of_ne_null .moment rfl, Coercion.convert?, h]
  rfl

theorem cleanValue_moment (hkind : c.kind = .moment)
    (h : Coercion.toMoment? (.text a) = some (.moment m)) :
    cleanValue c (.text a) = .ok (.moment m) := by
  rw [cleanValue, hkind, coerce_moment_text h]
  · rfl
  · exact nofun

theorem coerce_shown_moment (hkind : c.kind = .moment) (hcolumn : r.model.column? field = some c)
    {row : Row} (hcell : row.cell c.name = .text (ParameterType.momentText m)) {action : Action}
    {requested : Option String} {v : Value}
    (h : Entries.get? (r.answerRow action requested row) field = some v) :
    coerce c.kind v = .ok (.moment ⟨m.date, m.time, some Offset.utc⟩) := by
  rw [eq_plain_of_answerRow hcolumn h, hcell, hkind, load_moment]
  exact (readsBack_moment m).coerced

theorem stands_moment_iff (hkind : c.kind = .moment) {row : Row}
    (hcell : row.cell c.name = .text (ParameterType.momentText m)) (cmp : Comparison) (n : Moment) :
    stands c cmp (.moment n) row = true ↔ cmp.Relates m.localMicros n.localMicros := by
  have hoperand : Clause.operandCell .moment (.moment n) = .text (ParameterType.momentText n) := rfl
  have hcompared : Affinity.numeric.compared (.text (ParameterType.momentText n)) =
      .text (ParameterType.momentText n) := compared_numeric_text (readNumber?_momentText n)
  rw [stands, hcell, hkind, hoperand, ColumnKind.affinity, Affinity.compares, hcompared]
  simp only [Cell.isNull, Bool.not_false, Bool.true_and, Cell.order,
    ParameterType.compare_momentText, Comparison.admits_compare_iff]

/-- A filter on a column of moments runs, and selects a row exactly when its reading stands to that
of the filter as the operator says. A text with a comma is no single value for an equality. -/
theorem exists_shown_moment {o : Options} {store : Store} {base : Select} {row : Row}
    (hon : o.filtering.enabled = true) (hfield : field ∈ o.filtering.fields)
    (hcolumn : r.model.column? field = some c) (hkind : c.kind = .moment)
    (hgives : Gives store base r.model row)
    (hcell : row.cell c.name = .text (ParameterType.momentText m)) {op : Operator}
    {cmp : Comparison} (hop : comparison? op = some cmp)
    (hb : Coercion.toMoment? (.text b) = some (.moment n))
    (hcomma : op = .eq ∨ op = .neq → hasComma (.text b) = false) :
    ∃ here, shown store o.unpaged (filterBy o field op (.text b)) base = .ok here ∧
      (row ∈ here.rows ↔ cmp.Relates m.localMicros n.localMicros) := by
  have hcoerce : coerce c.kind (.text b) = .ok (.moment n) := by
    rw [hkind]
    exact coerce_moment_text hb
  have hfits : Fits c (.text b) := ⟨.moment n, hcoerce, by rw [hkind]; rfl, rfl⟩
  have hcoerced : coerceOperand (.column c) (.one (.text b)) = .ok (.one (.moment n)) := by
    rw [coerceOperand, coerceFor_column, hcoerce, mapError_ok]
    rfl
  have hclause : clauseOf (.column c) op (.one (.moment n)) =
      .ok (.compare (.column c) cmp (.moment n)) := clauseOf_one_eq hop rfl
  have hbinds : ∀ p ∈ (Clause.compare (.column c) cmp (.moment n)).parameters, Select.Binds p := by
    intro p hp
    have hbound : Select.Binds (.compared (some c.kind) (.moment n), .moment n) := by
      rw [hkind]
      exact ⟨.text (ParameterType.momentText n), rfl⟩
    rw [List.mem_singleton.1 hp]
    exact hbound
  have hrefine := refine_filterBy hon hfield hcolumn hgives.unwindowed hgives.model
    (hfits.operand?_one hop hcomma) hcoerced hclause
  have hruns := check_extended hgives.runs hbinds (fun t ht => ⟨c, List.mem_singleton.1 ht⟩) rfl
  obtain ⟨here, hshown, hrows⟩ := exists_shown_unpaged hrefine hruns
  refine ⟨here, hshown, ?_⟩
  have hholds : (Clause.compare (.column c) cmp (.moment n)).holds base.model? row =
      stands c cmp (.moment n) row := rfl
  rw [hrows, mem_rowsOf_extended hgives.unwindowed, hholds, stands_moment_iff hkind hcell]
  exact and_iff_right hgives.mem

end Moments

theorem exists_offset_of_toMoment? {v : Value} {m : Moment}
    (h : Coercion.toMoment? v = some (.moment m)) : ∃ o, m.offset? = some o := by
  unfold Coercion.toMoment? at h
  split at h
  · cases h
    exact ⟨_, rfl⟩
  · obtain ⟨s, -, h⟩ := Option.bind_eq_some_iff.1 h
    obtain ⟨found, -, hfound⟩ := Option.map_eq_some_iff.1 h
    cases hfound
    exact ⟨_, rfl⟩

theorem instant?_eq_localMicros_iff {m : Moment} (h : ∃ o, m.offset? = some o) :
    m.instant? = some m.localMicros ↔ m.offset? = some Offset.utc := by
  obtain ⟨⟨micros, valid⟩, ho⟩ := h
  rw [Moment.instant?, ho, Option.map_some, Option.some_inj, Option.some_inj, Offset.utc,
    Offset.mk.injEq]
  change m.localMicros - micros = m.localMicros ↔ micros = 0
  omega

/-- A time that is sent for a column of moments is read back as its local reading in universal time,
and every filter by one time compares the readings. So it is read back as its instant exactly when
it is in universal time, and filters compare the instants where the offsets are the same. -/
theorem times_stand_by_reading {state : State} (hs : state.store.Sound σ) (hm : r.model ∈ σ.models)
    (hnames : (r.model.columns.map Column.name).Nodup) (hcolumn : r.model.column? field = some c)
    (hkind : c.kind = .moment) (hleaves : r.HooksLeave c) (hon : r.options.filtering.enabled = true)
    (hfield : field ∈ r.options.filtering.fields) {now : Moment} {entries : Entries Value}
    {answer : Entries Value} (hcreated : (r.create now (.map entries) state).result = .ok answer)
    {a : String} {m : Moment} (hsent : Entries.get? entries field = some (.text a))
    (ha : Coercion.toMoment? (.text a) = some (.moment m)) :
    ∃ row ∈ (r.create now (.map entries) state).state.store.rows r.model,
      answer = r.answerRow .write none row ∧
      (∀ action requested v, Entries.get? (r.answerRow action requested row) field = some v →
        ∃ back, coerce c.kind v = .ok (.moment back) ∧ back.instant? = some m.localMicros ∧
          (back.instant? = m.instant? ↔ m.offset? = some Offset.utc)) ∧
      (Gives (r.create now (.map entries) state).state.store r.base r.model row →
        ∀ op cmp, comparison? op = some cmp →
          ∀ b n, Coercion.toMoment? (.text b) = some (.moment n) →
            (op = .eq ∨ op = .neq → hasComma (.text b) = false) →
              ∃ here, shown (r.create now (.map entries) state).state.store r.options.unpaged
                  (filterBy r.options field op (.text b)) r.base = .ok here ∧
                (row ∈ here.rows ↔ cmp.Relates m.localMicros n.localMicros) ∧
                (m.offset? = n.offset? → ∀ i j, m.instant? = some i → n.instant? = some j →
                  (row ∈ here.rows ↔ cmp.Relates i j))) := by
  obtain ⟨cr, hanswer, -⟩ := (create_of_sound hs hm now (.map entries)).of_ok hcreated
  have hnumber : r.model.rowNumber?.map Column.name ≠ some c.name := by
    intro hname
    obtain ⟨d, hd, hdname⟩ := Option.map_eq_some_iff.1 hname
    obtain rfl : d = c := List.inj_on_of_nodup_map hnames (Model.mem_columns_of_rowNumber? hd)
      (List.mem_of_find?_eq_some hcolumn) hdname
    exact absurd (hkind.symm.trans (Model.soleKey?_of_rowNumber? hd).2) (by decide)
  have hcell : cr.row.cell c.name = .text (ParameterType.momentText m) := by
    rw [cr.cell_eq_kept hnames hcolumn hleaves hnumber hsent (cleanValue_moment hkind ha) rfl,
      Column.kept_moment hkind]
  refine ⟨cr.row, cr.placed.mem hs hm, hanswer, ?_, ?_⟩
  · intro action requested v hv
    have hback : (⟨m.date, m.time, some Offset.utc⟩ : Moment).instant? = some m.localMicros :=
      congrArg some (Int.sub_zero _)
    refine ⟨_, coerce_shown_moment hkind hcolumn hcell hv, hback, ?_⟩
    rw [hback, eq_comm, instant?_eq_localMicros_iff (exists_offset_of_toMoment? ha)]
  · intro hgives op cmp hop b n hb hcomma
    obtain ⟨here, hshown, hmem⟩ := exists_shown_moment hon hfield hcolumn hkind hgives hcell hop hb
      hcomma
    refine ⟨here, hshown, hmem, ?_⟩
    intro hoffsets i j hi hj
    obtain ⟨o, ho⟩ := exists_offset_of_toMoment? ha
    rw [Moment.instant?, ho] at hi
    rw [Moment.instant?, ← hoffsets, ho] at hj
    rw [hmem, ← Option.some.inj hi, ← Option.some.inj hj, Comparison.relates_sub_iff]

/-! ### A time of another time zone -/

/-- The time of publication of the post that was published in another time zone. -/
def publication : Moment :=
  ⟨noon.date, ⟨12, 0, 0, 500000, by decide⟩, some ⟨7200000000, by decide⟩⟩

theorem toMoment?_publication :
    Coercion.toMoment? (.text "2026-01-01T12:00:00.5+02:00") = some (.moment publication) := by
  rfl

/-- The post is created, as the one row of its table, in a resource without hooks or collection. -/
theorem exists_timedPosts : ∃ registry r, Registry.register [] timedPosts = .ok (registry, r) ∧
    r.hooks = [] ∧ r.collection? = none ∧
      r.options.filtering = ⟨true, "filter", ["published_at"]⟩ ∧
      (∃ answer, r.createdPost.result = .ok answer) ∧
      ∃ row, r.createdPost.state.store.rows r.model = [row] ∧
        row.cell "published_at" = .text (ParameterType.momentText publication) ∧
          ∃ v, Entries.get? (r.answerRow .show_ none row) "published_at" = some v := by
  have hfacts : (Registry.register [] timedPosts).toOption.map (fun p =>
      p.2.hooks.isEmpty && p.2.collection?.isNone &&
        decide (p.2.options.filtering = ⟨true, "filter", ["published_at"]⟩) &&
        p.2.createdPost.result.toOption.isSome &&
        (decide ((p.2.createdPost.state.store.rows p.2.model).length = 1) &&
          (p.2.createdPost.state.store.rows p.2.model).all fun row =>
            decide (row.cell "published_at" = .text (ParameterType.momentText publication)) &&
              (Entries.get? (p.2.answerRow .show_ none row) "published_at").isSome)) =
      some true := by
    decide +kernel
  obtain ⟨⟨registry, r⟩, hregister, hruns⟩ := exists_of_toOption_map hfacts
  simp only [Bool.and_eq_true, List.isEmpty_iff, Option.isNone_iff_eq_none, decide_eq_true_eq]
    at hruns
  obtain ⟨⟨⟨⟨hhooks, hcollection⟩, hfiltering⟩, hcreated⟩, hone, hall⟩ := hruns
  obtain ⟨row, hrows⟩ := List.length_eq_one_iff.1 hone
  rw [hrows, List.all_cons, List.all_nil, Bool.and_true, Bool.and_eq_true, decide_eq_true_iff] at hall
  exact ⟨registry, r, hregister, hhooks, hcollection, hfiltering,
    exists_of_isSome_toOption hcreated, row, hrows, hall.1, Option.isSome_iff_exists.1 hall.2⟩

/-- The post is selected by a filter up to a later time of its time zone. -/
theorem publication_selected : ∃ registry r row here,
    Registry.register [] timedPosts = .ok (registry, r) ∧
      r.createdPost.state.store.rows r.model = [row] ∧
      shown r.createdPost.state.store r.options.unpaged (filterBy r.options "published_at" .lte
        (.text "2026-01-01T12:00:01+02:00")) r.base = .ok here ∧ row ∈ here.rows := by
  obtain ⟨registry, r, hregister, hhooks, hcollection, hfiltering, ⟨answer, hcreated⟩, row, hrows,
    -⟩ := exists_timedPosts
  have hmodel : r.model = Posts.model := Registry.model_of_register hregister
  have hcolumn : r.model.column? "published_at" = some Posts.model.columns[4] := by
    rw [hmodel]
    rfl
  have hlater : Coercion.toMoment? (.text "2026-01-01T12:00:01+02:00") = some (.moment
      ⟨publication.date, ⟨12, 0, 1, 0, by decide⟩, publication.offset?⟩) := by
    rfl
  obtain ⟨found, hfound, -, -, hfilters⟩ := times_stand_by_reading (Store.sound_empty postsSchema)
    (mem_postsSchema_of_register hregister rfl) (by rw [hmodel]; decide) hcolumn rfl
    (hooksLeave_of_nil hhooks _) (by rw [hfiltering])
    (by rw [hfiltering]; exact List.mem_singleton.2 rfl)
    hcreated rfl toMoment?_publication
  have hgives : Gives r.createdPost.state.store r.base r.model found := by
    rw [base, hcollection, Option.getD_none]
    exact gives_all hfound
  obtain ⟨here, hshown, -, hinstants⟩ := hfilters hgives .lte .lessEqual rfl _ _ hlater
    (fun _ => by decide)
  have hsame : found = row := List.mem_singleton.1 (hrows ▸ hfound)
  refine ⟨registry, r, row, here, hregister, hrows, hshown, ?_⟩
  rw [← hsame, hinstants rfl _ _ rfl rfl]
  decide +kernel

/-- The post is not read back as published at its instant, two hours earlier in universal time, and
a filter by this instant does not select it. -/
theorem publication_misread : ∃ registry r row here,
    Registry.register [] timedPosts = .ok (registry, r) ∧
      r.createdPost.state.store.rows r.model = [row] ∧
      (∃ v back, Entries.get? (r.answerRow .show_ none row) "published_at" = some v ∧
        coerce .moment v = .ok (.moment back) ∧ back.instant? ≠ publication.instant?) ∧
      (∃ n, Coercion.toMoment? (.text "2026-01-01T10:00:00.5Z") = some (.moment n) ∧
        n.instant? = publication.instant?) ∧
      shown r.createdPost.state.store r.options.unpaged (filterBy r.options "published_at" .eq
        (.text "2026-01-01T10:00:00.5Z")) r.base = .ok here ∧ row ∉ here.rows := by
  obtain ⟨registry, r, hregister, hhooks, hcollection, hfiltering, -, row, hrows, hcell, v,
    hv⟩ := exists_timedPosts
  have hmodel : r.model = Posts.model := Registry.model_of_register hregister
  have hcolumn : r.model.column? "published_at" = some Posts.model.columns[4] := by
    rw [hmodel]
    rfl
  have hmem : row ∈ r.createdPost.state.store.rows r.model := by
    rw [hrows]
    exact List.mem_singleton.2 rfl
  have hgives : Gives r.createdPost.state.store r.base r.model row := by
    rw [base, hcollection, Option.getD_none]
    exact gives_all hmem
  have hinstant : Coercion.toMoment? (.text "2026-01-01T10:00:00.5Z") = some (.moment
      ⟨publication.date, ⟨10, 0, 0, 500000, by decide⟩, some Offset.utc⟩) := by
    rfl
  have hequal : comparison? .eq = some .equal := rfl
  obtain ⟨here, hshown, hselected⟩ := exists_shown_moment (by rw [hfiltering])
    (by rw [hfiltering]; exact List.mem_singleton.2 rfl) hcolumn rfl hgives hcell hequal hinstant
    (fun _ => by decide)
  have hback := coerce_shown_moment rfl hcolumn hcell hv
  refine ⟨registry, r, row, here, hregister, hrows, ⟨v, _, hv, hback, by decide +kernel⟩,
    ⟨_, hinstant, by decide +kernel⟩, hshown, ?_⟩
  rw [hselected]
  decide +kernel

end Resource

end TableApi
