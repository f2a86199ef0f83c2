import TableApi.Proofs.Posts.Map
import TableApi.Proofs.Resource.Textual
import TableApi.Proofs.Resource.Writes
import TableApi.Proofs.Store.Keys

/-! Payloads of posts that the store cannot take. The check of payloads lets every value pass for a
text, and the store has no cell for some of them: collections, and integers of more than 64 bits. A
request with such a value fails in the store, where no one answers for it. Apart from that only a
wide address and a table without a number that is left keep a request from being answered. -/

namespace TableApi

/-- Whether the store has no cell for a value of JSON as it is. -/
def Value.isUnbindable : Value → Bool
  | .int n => !Number.fitsStore n
  | .list _ | .map _ => true
  | _ => false

namespace Select

theorem binds_asGiven_iff {v : Value} (hjson : v.isJson = true) :
    Binds (.asGiven, v) ↔ v.isUnbindable = false := by
  cases v with
  | null | bool | float | text => exact iff_of_true ⟨_, rfl⟩ rfl
  | int n => rw [binds_of_integer rfl, Value.isUnbindable, Bool.not_eq_false']
  | list | map =>
    refine iff_of_false ?_ Bool.noConfusion
    rintro ⟨c, hc⟩
    cases hc
  | _ => cases hjson

end Select

theorem Store.differs_of_isUnbindable {cell : Cell} (hcell : cell.numberToText = cell) {v : Value}
    (hv : v.isUnbindable = true) : Store.differs cell.toValue v = true := by
  cases cell with
  | integer | real => cases hcell
  | _ =>
    cases v with
    | int | list | map =>
      simp [Store.differs, Cell.toValue, Value.identical, Value.same, Value.sameNumber,
        Value.number?]
    | _ => cases hv

namespace Posts

open Resource
open Select (Binds)

variable {σ : Schema} {r : Resource} {entries : Entries Value} {clean record : Record}
  {isUpdate : Bool} {c : Column} {supply : Supply} {now : Calendar.Moment} {row : Row}
  {store : Store} {v : Value} {p : ParameterType × Value}

/-- A payload that gives the store a value for a text which it has no cell for. -/
def HasUnbindable (entries : Entries Value) : Prop :=
  ∃ field ∈ textFields, ∃ v, Entries.get? entries field = some v ∧ v.isUnbindable = true

/-! ### Columns -/

theorem fields_nodup : model.fields.Nodup := by decide

/-- The columns of posts: their number, their texts and their times. -/
theorem column_cases (hc : c ∈ model.columns) :
    c = idColumn ∨ c.field ∈ textFields ∧ IsText c ∨
      c.kind = .moment ∧ ∀ d, c.default? = some d → d = .now := by
  by_cases hfield : c.field ∈ textFields
  · obtain ⟨d, hd, htext⟩ := exists_isText hfield
    obtain rfl := List.inj_on_of_nodup_map fields_nodup htext.mem hc hd
    exact .inr (.inl ⟨hfield, htext⟩)
  · simp only [model, timestamps, List.cons_append, List.nil_append, List.mem_cons,
      List.not_mem_nil, or_false] at hc
    rcases hc with rfl | rfl | rfl | rfl | rfl | rfl | rfl
    · exact .inl rfl
    · exact absurd (by decide) hfield
    · exact absurd (by decide) hfield
    · exact absurd (by decide) hfield
    · exact .inr (.inr ⟨rfl, fun d hd => nomatch hd⟩)
    · exact .inr (.inr ⟨rfl, fun d hd => (Option.some.inj hd).symm⟩)
    · exact .inr (.inr ⟨rfl, fun d hd => (Option.some.inj hd).symm⟩)

theorem IsText.parameterType (h : IsText c) : c.kind.parameterType = .asGiven := by
  rw [h.kind]
  rfl

theorem binds_default (hc : c ∈ model.columns) {d : Default} (hd : c.default? = some d)
    (supply : Supply) : Binds (c.kind.parameterType, supply.value d) := by
  rcases column_cases hc with rfl | ⟨-, htext⟩ | ⟨hkind, hnow⟩
  · cases hd
  · by_cases hstatus : c.field = "status"
    · have hdraft := htext.draft supply hstatus
      rw [hd, Option.map_some, Option.some.injEq] at hdraft
      rw [hdraft, htext.parameterType]
      exact ⟨_, rfl⟩
    · have hneeded := htext.needed hstatus
      simp [Column.mayBeOmitted, hd] at hneeded
  · rw [hnow d hd, hkind]
    exact Select.binds_moment supply.now

/-! ### What is sent -/

/-- A parameter that is bound, or that is what the payload gives for a text, as it is. -/
def IsGiven (entries : Entries Value) (p : ParameterType × Value) : Prop :=
  Binds p ∨ p.1 = .asGiven ∧ ∃ field ∈ textFields, Entries.get? entries field = some p.2

theorem IsGiven.exists_prepare (h : IsGiven entries p) : ∃ q, p.1.prepare p.2 = .ok q := by
  rcases h with ⟨cell, hcell⟩ | ⟨htype, -⟩
  · exact ⟨_, hcell⟩
  · rw [htype]
    exact ⟨_, rfl⟩

theorem IsGiven.binds (h : IsGiven entries p) (hjson : ∀ entry ∈ entries, entry.2.isJson = true)
    (hnone : ¬ HasUnbindable entries) : Binds p := by
  obtain ⟨type, v⟩ := p
  rcases h with hbinds | ⟨rfl, field, hfield, hget⟩
  · exact hbinds
  · rw [Select.binds_asGiven_iff (hjson _ (Entries.mem_of_get?_eq_some hget)), Bool.eq_false_iff]
    exact fun hunbindable => hnone ⟨field, hfield, v, hget, hunbindable⟩

theorem get?_text (hr : IsPosts r) (hclean : r.sanitize (.map entries) isUpdate = .ok clean)
    (hc : IsText c) : Entries.get? clean c.field = Entries.get? entries c.field := by
  obtain ⟨others, hothers, -, hall⟩ := of_sanitize hclean
  cases hothers
  rw [hr.model] at hall
  rcases get?_cleanAll hall c.field with ⟨hnone, hget⟩ | ⟨d, v, x, hd, hv, hx, hget⟩
  · rw [hnone, hget]
  · obtain rfl := Option.some.inj (hc.found.symm.trans hd)
    rw [hv, hget]
    rcases cleanValue_eq_ok_iff.1 hx with ⟨rfl, -, rfl⟩ | ⟨-, hcoerce, -⟩
    · rfl
    · rw [hc.kind, Coercion.coerce_untyped rfl] at hcoerce
      exact congrArg some (Except.ok.inj hcoerce).symm

/-- What an accepted payload gives for a column of posts. -/
theorem isGiven_of_get?_clean (hr : IsPosts r)
    (hclean : r.sanitize (.map entries) isUpdate = .ok clean) (hc : c ∈ model.columns)
    (hv : Entries.get? clean c.field = some v) : IsGiven entries (c.kind.parameterType, v) := by
  rcases column_cases hc with rfl | ⟨hfield, htext⟩ | ⟨hkind, -⟩
  · exact absurd (List.mem_map_of_mem (Entries.mem_of_get?_eq_some hv)) (id_notMem_keys hr hclean)
  · exact .inr ⟨htext.parameterType, c.field, hfield, (get?_text hr hclean htext).symm.trans hv⟩
  · obtain ⟨others, -, -, hall⟩ := of_sanitize hclean
    rw [hr.model] at hall
    obtain ⟨d, w, hd, hx⟩ := exists_of_mem_cleanAll hall (Entries.mem_of_get?_eq_some hv)
    obtain rfl := Option.some.inj ((Model.column?_of_mem fields_nodup hc).symm.trans hd)
    refine .inl ?_
    rcases accepts_of_cleanValue hx with rfl | haccepts
    · exact Select.binds_null _
    · rw [hkind] at haccepts ⊢
      cases Coercion.accepts_iff.1 haccepts rfl
      exact Select.binds_moment _

/-! ### Creating -/

/-- A record that the hook in front of a creation makes of a cleaned payload. -/
def Precedes (now : Calendar.Moment) (clean record : Record) : Prop :=
  ∀ field, Entries.get? record field = Entries.get? clean field ∨
    field = "published_at" ∧ Entries.get? record field = some (.moment now)

theorem isGiven_of_sent (hr : IsPosts r) (hclean : r.sanitize (.map entries) isUpdate = .ok clean)
    (hrecord : Precedes now clean record) (hc : c ∈ model.columns)
    (hsent : record.sent? supply c = some v) : IsGiven entries (c.kind.parameterType, v) := by
  rcases Store.sent?_cases hsent with ⟨d, hd, rfl⟩ | ⟨-, hget⟩ | ⟨rfl, -⟩
  · exact .inl (binds_default hc hd supply)
  · rcases hrecord c.field with hsame | ⟨hfield, htime⟩
    · exact isGiven_of_get?_clean hr hclean hc (hsame.symm.trans hget)
    · obtain rfl := Option.some.inj (htime.symm.trans hget)
      rcases column_cases hc with rfl | ⟨htext, -⟩ | ⟨hkind, -⟩
      · exact absurd hfield (by decide)
      · exact absurd (hfield ▸ htext) (by decide)
      · rw [hkind]
        exact .inl (Select.binds_moment now)
  · exact .inl (Select.binds_null _)

theorem get?_id_of_precedes (hr : IsPosts r)
    (hclean : r.sanitize (.map entries) isUpdate = .ok clean) (hrecord : Precedes now clean record) :
    Entries.get? record "id" = none := by
  rw [(hrecord "id").resolve_right fun h => absurd h.1 (by decide), Entries.get?_eq_none_iff]
  exact id_notMem_keys hr hclean

/-- A new post is judged by the rules when the store has a cell for all that is given, and a
number. -/
theorem isJudged_insert_iff (hr : IsPosts r)
    (hclean : r.sanitize (.map entries) isUpdate = .ok clean) (hrecord : Precedes now clean record)
    (hjson : ∀ entry ∈ entries, entry.2.isJson = true) :
    Store.IsJudged (store.insert supply model record) ↔
      ¬ HasUnbindable entries ∧ Number.fitsStore (Store.nextNumber (store.rows model)) = true := by
  have hunset := get?_id_of_precedes hr hclean hrecord
  have hnumber : (Store.sentCells supply model record).get? idColumn.name = none := by
    rw [Store.get?_sentCells names_nodup supply record
      (Model.mem_columns_of_rowNumber? rowNumber?_model), sent?_idColumn hunset, Option.map_none]
  rw [Store.isJudged_insert_iff, Store.isJudged_newNumber_iff rowNumber?_model hnumber]
  refine and_congr_left' ⟨?_, fun hnone c hc v hsent =>
    (isGiven_of_sent hr hclean hrecord hc hsent).binds hjson hnone⟩
  rintro hall ⟨field, hfield, v, hv, hunbindable⟩
  obtain ⟨c, rfl, htext⟩ := exists_isText hfield
  have hset : Entries.get? record c.field = some v := by
    rw [(hrecord c.field).resolve_right fun h => absurd (h.1 ▸ hfield) (by decide),
      get?_text hr hclean htext, hv]
  have hnotNull : v ≠ .null := by
    rintro rfl
    cases hunbindable
  have hbinds := hall c htext.mem v (Store.sent?_of_get? hset hnotNull)
  rw [htext.parameterType,
    Select.binds_asGiven_iff (hjson _ (Entries.mem_of_get?_eq_some hv)), hunbindable] at hbinds
  cases hbinds

/-! ### Changing -/

section Changing

variable (hr : IsPosts r) (hclean : r.sanitize (.map entries) isUpdate = .ok clean)
  (hkeys : (Entries.keys entries).Nodup) (hnumbers : model.Numbers row)
  (hfits : Number.fitsStore row.number = true)

include hclean hkeys

theorem value_putAll (before : Record) (field : String) :
    Record.value (Entries.putAll before clean) field =
      (Entries.get? clean field).getD (before.value field) := by
  have hnodup : (Entries.keys clean).Nodup := by
    rw [keys_of_sanitize hclean]
    exact hkeys
  rw [Record.value, Entries.get?_putAll hnodup, Record.value]
  cases Entries.get? clean field <;> rfl

include hr hnumbers hfits

theorem isGiven_of_change (hp : p ∈ Store.changeParameters now model (Record.ofRow model row)
    (Entries.putAll (Record.ofRow model row) clean)) : IsGiven entries p := by
  rcases List.mem_append.1 hp with hsent | hkey
  · obtain ⟨⟨c, v⟩, hchange, rfl⟩ := List.mem_map.1 hsent
    obtain ⟨-, hc, ⟨hdiffers, hv⟩ | ⟨-, hstamped, hv⟩⟩ := Store.mem_changes_iff.1 hchange
    · rw [value_putAll hclean hkeys] at hdiffers hv
      cases hget : Entries.get? clean c.field with
      | none =>
        rw [hget, Option.getD_none, Store.differs_self] at hdiffers
        cases hdiffers
      | some x =>
        rw [hget, Option.getD_some] at hv
        exact isGiven_of_get?_clean hr hclean hc (hget.trans (congrArg some hv.symm))
    · rcases column_cases hc with rfl | ⟨-, htext⟩ | ⟨hkind, -⟩
      · cases hstamped
      · rw [htext.stamped] at hstamped
        cases hstamped
      · obtain rfl : v = .moment now := hv
        rw [hkind]
        exact .inl (Select.binds_moment now)
  · obtain ⟨d, hd, rfl⟩ := List.mem_map.1 hkey
    obtain rfl : d = idColumn := List.mem_singleton.1 hd
    have hvalue : Record.value (Record.ofRow model row) idColumn.field = .int row.number := by
      rw [Record.value_ofRow (show model.column? idColumn.field = some idColumn from rfl),
        hnumbers idColumn rowNumber?_model]
      rfl
    rw [hvalue]
    exact .inl ((Select.binds_of_integer rfl).2 hfits)

/-- A change of a post is judged by the rules when the store has a cell for all that is given. -/
theorem isJudged_update_iff (hjson : ∀ entry ∈ entries, entry.2.isJson = true)
    (htextual : row.IsTextual model) :
    Store.IsJudged (store.update now model row (Record.ofRow model row)
      (Entries.putAll (Record.ofRow model row) clean)) ↔ ¬ HasUnbindable entries := by
  rw [Store.isJudged_update_iff, and_iff_left (isNamedBy_ofRow fields_nodup row)]
  constructor
  · rintro hjudged ⟨field, hfield, v, hv, hunbindable⟩
    obtain ⟨c, rfl, htext⟩ := exists_isText hfield
    have hafter : Record.value (Entries.putAll (Record.ofRow model row) clean) c.field = v := by
      rw [value_putAll hclean hkeys, get?_text hr hclean htext, hv, Option.getD_some]
    have hcell := htextual c htext.mem (by rw [htext.kind]; rfl)
    have hdiffers : Store.differs (Record.value (Record.ofRow model row) c.field) v = true := by
      rw [Record.value_ofRow htext.found, htext.kind]
      exact Store.differs_of_isUnbindable hcell hunbindable
    have hchange : (c, v) ∈ Store.changes now model (Record.ofRow model row)
        (Entries.putAll (Record.ofRow model row) clean) := by
      rw [← hafter] at hdiffers ⊢
      exact Store.mem_changes_of_differs htext.mem hdiffers
    have hbinds := hjudged.resolve_left (List.ne_nil_of_mem hchange) _
      (List.mem_append_left _ (List.mem_map_of_mem hchange))
    rw [htext.parameterType,
      Select.binds_asGiven_iff (hjson _ (Entries.mem_of_get?_eq_some hv)), hunbindable] at hbinds
    cases hbinds
  · exact fun hnone => .inr fun p hp =>
      (isGiven_of_change hr hclean hkeys hnumbers hfits hp).binds hjson hnone

end Changing

/-! ### Requests -/

section Requests

variable {state : State} {address : Value}

theorem permitted_subset (hr : IsPosts r) : ∀ field ∈ r.permitted, field ∈ r.model.fields := by
  rw [hr.permitted, hr.model]
  decide

theorem isBadRequest_of_sanitize (hr : IsPosts r) {e : PayloadError}
    (h : r.sanitize (.map entries) isUpdate = .error e) : e.IsBadRequest := by
  refine (of_sanitize_map_eq_error h).resolve_right ?_
  rintro ⟨hpermitted, field, v, c, failure, hmem, hc, hfailure, -⟩
  have hfield := hpermitted field (List.mem_map_of_mem hmem)
  rw [hr.permitted] at hfield
  rw [hr.model] at hc
  obtain rfl := Model.field_of_column? hc
  rcases column_cases (List.mem_of_find?_eq_some hc) with rfl | ⟨-, htext⟩ | ⟨hkind, -⟩
  · exact absurd hfield (by decide)
  · rw [htext.kind, Coercion.coerce_untyped rfl] at hfailure
    cases hfailure
  · rw [hkind] at hfailure
    cases v <;> cases hfailure

/-- What a creation of a post comes to: it is refused, or a row is to be added. -/
inductive Creates (r : Resource) (state : State) (entries : Entries Value)
    (now : Calendar.Moment) : Except ServiceError (Entries Value) → Prop where
  | refused (hnot : ¬ r.Admissible entries false) (refusal : Refusal) :
    Creates r state entries now (.error (.refused refusal))
  | written {clean record : Record} (hadmissible : r.Admissible entries false)
    (hclean : r.sanitize (.map entries) false = .ok clean) (hrecord : Precedes now clean record) :
    Creates r state entries now
      (r.ofWrite (state.store.insert ⟨now, state.drawn⟩ model record))

theorem creates_create (hr : IsPosts r) (hs : state.store.Sound σ) (hm : r.model ∈ σ.models)
    (entries : Entries Value) (now : Calendar.Moment) :
    Creates r state entries now (r.create now (.map entries) state).result := by
  have hiff : (∃ clean, r.sanitize (.map entries) false = .ok clean) ↔ r.Admissible entries false :=
    exists_sanitize_iff (permitted_subset hr)
  cases hclean : r.sanitize (.map entries) false with
  | error e =>
    obtain ⟨refusal, rfl, -⟩ := isBadRequest_of_sanitize hr hclean
    rw [create_of_sanitize_eq_error hclean]
    refine .refused (fun h => ?_) refusal
    obtain ⟨clean, h⟩ := hiff.2 h
    cases hclean.symm.trans h
  | ok clean =>
    obtain ⟨record, hbefore, hrecord⟩ := exists_of_beforeCreate ⟨now, state.store, clean⟩
    have hpassed : r.runHook .beforeCreate ⟨now, state.store, clean⟩ = .ok (true, record) := by
      rw [runHook, hook?_beforeCreate hr]
      simp only [hbefore]
      rfl
    have hkey : NumbersKey r.model record := by
      intro d hd v hv
      obtain rfl : idColumn = d := Option.some.inj ((hr.model ▸ rowNumber?_model).symm.trans hd)
      cases (get?_id_of_precedes hr hclean hrecord).symm.trans hv
    rw [create_result_eq hs hm hclean hpassed hkey (leavesAlone_afterCreate hr now), hr.model]
    exact .written (hiff.1 ⟨clean, hclean⟩) hclean hrecord

/-- What a change of a post comes to: it fails for its wide address, is refused because no post is
there or the payload is not admissible, or the post at the address is to be changed. -/
inductive Changes (r : Resource) (state : State) (entries : Entries Value) (now : Calendar.Moment)
    (address : Value) : Except ServiceError (Entries Value) → Prop where
  | wide {i : Int} (haddress : idOf? address = some i) (hwide : Number.fitsStore i = false) :
    Changes r state entries now address (.error (.store (.bind .wideInteger)))
  | missing (hfits : ∀ i, idOf? address = some i → Number.fitsStore i = true)
    (hnone : ∀ row ∈ state.store.rows model, idOf? address ≠ some row.number) :
    Changes r state entries now address (.error (.refused .noRecord))
  | refused {row : Row} (hrow : row ∈ state.store.rows model)
    (haddress : idOf? address = some row.number) (hfits : Number.fitsStore row.number = true)
    (hnot : ¬ r.Admissible entries true) (refusal : Refusal) :
    Changes r state entries now address (.error (.refused refusal))
  | written {row : Row} {clean : Record} (hrow : row ∈ state.store.rows model)
    (haddress : idOf? address = some row.number) (hfits : Number.fitsStore row.number = true)
    (hadmissible : r.Admissible entries true)
    (hclean : r.sanitize (.map entries) true = .ok clean) :
    Changes r state entries now address
      (r.ofWrite (state.store.update now model row (Record.ofRow model row)
        (Entries.putAll (Record.ofRow model row) clean)))

theorem changes_update (hr : IsPosts r) (hs : state.store.Sound σ) (hm : r.model ∈ σ.models)
    (entries : Entries Value) (now : Calendar.Moment) (address : Value) :
    Changes r state entries now address (r.update now address (.map entries) state).result := by
  have hiff : (∃ clean, r.sanitize (.map entries) true = .ok clean) ↔ r.Admissible entries true :=
    exists_sanitize_iff (permitted_subset hr)
  have hnumber : r.model.rowNumber? = some idColumn := by
    rw [hr.model]
    rfl
  cases hfound : r.find state.store address with
  | error e =>
    rw [update_of_find_eq_error hfound]
    rw [find_eq hs hm hnumber] at hfound
    split at hfound
    · next hnone =>
      cases hfound
      refine .missing (fun i hi => ?_) fun row _ haddress => ?_
      · cases hnone.symm.trans hi
      · cases hnone.symm.trans haddress
    · next i haddress =>
      split at hfound
      · next hfits =>
        cases hrow : (state.store.rows r.model).find? (·.number == i) with
        | some row =>
          rw [hrow] at hfound
          cases hfound
        | none =>
          rw [hrow] at hfound
          cases hfound
          rw [hr.model, List.find?_eq_none] at hrow
          refine .missing (fun j hj => ?_) fun row hmem hat => ?_
          · rwa [← Option.some.inj (haddress.symm.trans hj)]
          · have hsame := Option.some.inj (haddress.symm.trans hat)
            exact hrow row hmem (by simp [hsame])
      · next hwide =>
        cases hfound
        exact .wide haddress (by simpa using hwide)
  | ok row =>
    obtain ⟨haddress, hfits⟩ := number_of_find hs hm hnumber hfound
    have hrow := mem_rows_of_find hfound
    rw [hr.model] at hrow
    cases hclean : r.sanitize (.map entries) true with
    | error e =>
      obtain ⟨refusal, rfl, -⟩ := isBadRequest_of_sanitize hr hclean
      rw [update_of_sanitize_eq_error hfound hclean]
      refine .refused hrow haddress hfits (fun h => ?_) refusal
      obtain ⟨clean, h⟩ := hiff.2 h
      cases hclean.symm.trans h
    | ok clean =>
      rw [update_result_eq hs hm hfound hclean (runHook_of_hook?_none (hook?_beforeUpdate hr) _)
        (leavesAlone_afterUpdate hr now), hr.model]
      exact .written hrow haddress hfits (hiff.1 ⟨clean, hclean⟩) hclean

section Results

variable {x : Except ServiceError (Entries Value)} {e : ServiceError}
  (hr : IsPosts r) (hjson : ∀ entry ∈ entries, entry.2.isJson = true)

include hr

include hjson in
theorem Creates.isAnswered_iff (h : Creates r state entries now x) : IsAnswered x ↔
    (r.Admissible entries false → ¬ HasUnbindable entries ∧
      Number.fitsStore (Store.nextNumber (state.store.rows model)) = true) := by
  cases h with
  | refused hnot refusal => exact iff_of_true (isAnswered_refused refusal) fun h => absurd h hnot
  | written hadmissible hclean hrecord =>
    rw [isAnswered_ofWrite_iff, isJudged_insert_iff hr hclean hrecord hjson]
    exact ⟨fun h _ => h, fun h => h hadmissible⟩

theorem Creates.of_eq_error (h : Creates r state entries now x) (hx : x = .error e) :
    (∃ refusal, e = .refused refusal) ∨ (∃ failure, e = .store (.bind failure)) ∨
      e = .store .full := by
  cases h with
  | refused hnot refusal => exact .inl ⟨refusal, (Except.error.inj hx).symm⟩
  | written hadmissible hclean hrecord =>
    refine (of_ofWrite_eq_error hx).imp_right ?_
    rintro ⟨failure, hinsert, hrules, rfl⟩
    rcases Store.of_insert_eq_error (fun c hc v hsent =>
      (isGiven_of_sent hr hclean hrecord hc hsent).exists_prepare) hinsert with
      ⟨b, rfl⟩ | rfl | ⟨v, rfl⟩
    · exact .inl ⟨b, rfl⟩
    · exact .inr rfl
    · exact absurd rfl (hrules v)

variable {address : Value} (hkeys : (Entries.keys entries).Nodup)
  (hnumbers : ∀ row ∈ state.store.rows model, model.Numbers row)

include hkeys hnumbers

include hjson in
theorem Changes.isAnswered_iff (htextual : ∀ row ∈ state.store.rows model, row.IsTextual model)
    (h : Changes r state entries now address x) : IsAnswered x ↔
      (∀ i, idOf? address = some i → Number.fitsStore i = true) ∧
        ((∃ row ∈ state.store.rows model, idOf? address = some row.number) →
          r.Admissible entries true → ¬ HasUnbindable entries) := by
  cases h with
  | wide haddress hwide =>
    refine iff_of_false (not_isAnswered_store _) fun h => ?_
    rw [h.1 _ haddress] at hwide
    cases hwide
  | missing hfits hnone =>
    refine iff_of_true (isAnswered_refused _) ⟨hfits, ?_⟩
    rintro ⟨row, hrow, haddress⟩
    exact absurd haddress (hnone row hrow)
  | refused hrow haddress hfits hnot refusal =>
    refine iff_of_true (isAnswered_refused _) ⟨fun i hi => ?_, fun _ h => absurd h hnot⟩
    rwa [← Option.some.inj (haddress.symm.trans hi)]
  | written hrow haddress hfits hadmissible hclean =>
    rw [isAnswered_ofWrite_iff, isJudged_update_iff hr hclean hkeys (hnumbers _ hrow) hfits hjson
      (htextual _ hrow)]
    refine ⟨fun h => ⟨fun i hi => ?_, fun _ _ => h⟩, fun h => h.2 ⟨_, hrow, haddress⟩ hadmissible⟩
    rwa [← Option.some.inj (haddress.symm.trans hi)]

theorem Changes.of_eq_error (h : Changes r state entries now address x) (hx : x = .error e) :
    (∃ refusal, e = .refused refusal) ∨ ∃ failure, e = .store (.bind failure) := by
  cases h with
  | wide haddress hwide => exact .inr ⟨_, (Except.error.inj hx).symm⟩
  | missing hfits hnone => exact .inl ⟨_, (Except.error.inj hx).symm⟩
  | refused hrow haddress hfits hnot refusal => exact .inl ⟨refusal, (Except.error.inj hx).symm⟩
  | written hrow haddress hfits hadmissible hclean =>
    refine (of_ofWrite_eq_error hx).imp_right ?_
    rintro ⟨failure, hupdate, hrules, rfl⟩
    rcases Store.of_update_eq_error (fun p hp =>
      (isGiven_of_change hr hclean hkeys (hnumbers _ hrow) hfits hp).exists_prepare)
      (isNamedBy_ofRow fields_nodup _) hupdate with
      ⟨b, rfl⟩ | ⟨v, rfl⟩
    · exact ⟨b, rfl⟩
    · exact absurd rfl (hrules v)

end Results

end Requests

/-! ### Payloads -/

/-- What comes of the requests to create and to change posts with a payload. -/
structure AnswersPayload (r : Resource) (state : State) (entries : Entries Value) : Prop where
  /-- A creation is answered or refused, unless the payload is admissible and the store has no cell
  for what it gives for a text, or no number for one more post. -/
  creates : ∀ now, IsAnswered (r.create now (.map entries) state).result ↔
    (r.Admissible entries false → ¬ HasUnbindable entries ∧
      Number.fitsStore (Store.nextNumber (state.store.rows model)) = true)
  /-- A change is answered or refused, unless its address is too wide, or there is a post at it, the
  payload is admissible and the store has no cell for what it gives for a text. -/
  changes : ∀ now address, IsAnswered (r.update now address (.map entries) state).result ↔
    (∀ i, idOf? address = some i → Number.fitsStore i = true) ∧
      ((∃ row ∈ state.store.rows model, idOf? address = some row.number) →
        r.Admissible entries true → ¬ HasUnbindable entries)
  /-- A creation that is neither fails in the store, at binding a value or for want of a number. -/
  failsToCreate : ∀ now e, (r.create now (.map entries) state).result = .error e →
    (∃ refusal, e = .refused refusal) ∨ (∃ failure, e = .store (.bind failure)) ∨ e = .store .full
  /-- A change that is neither fails in the store, at binding a value. -/
  failsToChange : ∀ now address e, (r.update now address (.map entries) state).result = .error e →
    (∃ refusal, e = .refused refusal) ∨ ∃ failure, e = .store (.bind failure)

/-- From every state that a service reaches, requests that write posts with a payload of JSON are
answered, or refused with 400, 404 or 422, exactly as long as the store is not given what it has no
cell for. -/
theorem answers_unless_unbindable {registry registry' : Registry} {state : State}
    (hregister : Registry.register registry registration = .ok (registry', r))
    (hstate : Reachable σ state) (hm : model ∈ σ.models) (hkeys : (Entries.keys entries).Nodup)
    (hjson : ∀ entry ∈ entries, entry.2.isJson = true) : AnswersPayload r state entries := by
  have hr := isPosts_of_register hregister
  have hs := sound_of_reachable hstate
  have hmodel : r.model ∈ σ.models := hr.model ▸ hm
  have htextual : ∀ row ∈ state.store.rows model, row.IsTextual model :=
    fun row hrow => (holds_isTextual hstate).rows hs hm row hrow names_nodup
  have hnumbers := hs.numbers hm
  have hcreates := creates_create hr hs hmodel entries
  have hchanges := changes_update hr hs hmodel entries
  exact ⟨fun now => (hcreates now).isAnswered_iff hr hjson,
    fun now address => (hchanges now address).isAnswered_iff hr hjson hkeys hnumbers htextual,
    fun now e => (hcreates now).of_eq_error hr,
    fun now address e => (hchanges now address).of_eq_error hr hkeys hnumbers⟩

def listedTitle : Entries Value := [("title", .list [.text "a"]), ("content", .text "b")]

/-- A post whose title is a list is neither created nor refused. -/
theorem not_isAnswered_listedTitle : ∃ registry r,
    Registry.register [] registration = .ok (registry, r) ∧
      (∀ entry ∈ listedTitle, entry.2.isJson = true) ∧
        ¬ IsAnswered (r.create noon (.map listedTitle) noPosts).result := by
  have hfacts : (Registry.register [] registration).toOption.map (fun p =>
      decide (IsAnswered (p.2.create noon (.map listedTitle) noPosts).result)) = some false := by
    decide +kernel
  obtain ⟨⟨registry, r⟩, hregister, hfails⟩ := exists_of_toOption_map hfacts
  exact ⟨registry, r, hregister, by decide, of_decide_eq_false hfails⟩

def numberedTitle : Entries Value := [("title", .int 7), ("content", .bool true)]

/-- A number and a truth value are taken as texts, so that the first creation of such a post is
answered. -/
theorem isAnswered_numberedTitle : ∃ registry r,
    Registry.register [] registration = .ok (registry, r) ∧
      ∀ now, IsAnswered (r.create now (.map numberedTitle) noPosts).result := by
  have hregister : (Registry.register [] registration).toOption.isSome = true := by
    decide +kernel
  obtain ⟨⟨registry, r⟩, hregister⟩ := exists_of_isSome_toOption hregister
  have hstate : Reachable postsSchema noPosts := .empty 0
  have hanswers : AnswersPayload r noPosts numberedTitle :=
    answers_unless_unbindable hregister hstate (List.mem_singleton.2 rfl) (by decide) (by decide)
  refine ⟨registry, r, hregister, fun now => (hanswers.creates now).2 fun _ => ⟨?_, by decide⟩⟩
  rintro ⟨field, hfield, v, hv, hunbindable⟩
  simp only [textFields, List.mem_cons, List.not_mem_nil, or_false] at hfield
  rcases hfield with rfl | rfl | rfl <;> cases hv <;> cases hunbindable

end Posts

end TableApi
