import TableApi.Proofs.Resource.Commit
import TableApi.Proofs.Resource.Payload
import TableApi.Proofs.Store.Named

/-! Requests that lose no row. The key of a new record names its row when what numbers the rows is
unset or a number, and that of a loaded record names it behind every change. So the hooks alone can
make a request lose its row, by what they set for a key or by what they do behind the write. -/

namespace TableApi.Resource

variable {r : Resource} {now : Calendar.Moment} {payload address : Value}

theorem runHook_of_hook?_none {point : HookPoint} (h : r.hook? point = none) (input : HookInput) :
    r.runHook point input = .ok (true, input.record) := by
  rw [runHook, h]

theorem hook?_of_hooks_nil (h : r.hooks = []) (point : HookPoint) : r.hook? point = none := by
  rw [hook?, h, List.lookup_nil]

/-- A hook that leaves the record behind a write as it is. -/
def LeavesAlone (r : Resource) (point : HookPoint) (now : Calendar.Moment) : Prop :=
  ∀ store known, ∃ answer, r.runHook point ⟨now, store, known⟩ = .ok (answer, known)

theorem leavesAlone_of_hook?_none {point : HookPoint} (h : r.hook? point = none)
    (now : Calendar.Moment) : r.LeavesAlone point now :=
  fun _ _ => ⟨true, runHook_of_hook?_none h _⟩

/-- A record whose key, where it numbers the rows, is unset or a number. -/
def NumbersKey (m : Model) (record : Record) : Prop :=
  ∀ c, m.rowNumber? = some c → ∀ v, Entries.get? record c.field = some v →
    v = .null ∨ Coercion.accepts .integer v = true

theorem numbersKey_of_sanitize (hm : r.model.Keyed) {isUpdate : Bool} {clean : Record}
    (h : r.sanitize payload isUpdate = .ok clean) : NumbersKey r.model clean := by
  intro c hnumber v hv
  obtain ⟨entries, -, -, hall⟩ := of_sanitize h
  obtain ⟨d, w, hd, hx⟩ := exists_of_mem_cleanAll hall (Entries.mem_of_get?_eq_some hv)
  have hc := Model.column?_of_mem hm.fields (Model.mem_columns_of_rowNumber? hnumber)
  obtain rfl := Option.some.inj (hc.symm.trans hd)
  rw [← (Model.soleKey?_of_rowNumber? hnumber).2]
  exact accepts_of_cleanValue hx

theorem Creation.record_of_hook?_none {before : State} {after : Store}
    (c : Creation r now payload before after) (hbefore : r.hook? .beforeCreate = none) :
    c.record = c.clean := by
  have hpassed := (runHook_of_hook?_none hbefore _).symm.trans c.passed
  exact (Prod.mk.inj (Except.ok.inj hpassed)).2.symm

/-- A hook behind a creation that leaves the record alone leaves what was flushed. -/
theorem Creation.settled {before : State} {after : Store} (c : Creation r now payload before after)
    (hafter : r.LeavesAlone .afterCreate now) :
    c.changed = Store.inserted ⟨now, before.drawn⟩ r.model c.record c.added ∧
      c.between = after ∧ c.added = c.row := by
  obtain ⟨answer, hrun⟩ := hafter c.between
    (Store.inserted ⟨now, before.drawn⟩ r.model c.record c.added)
  obtain ⟨-, hchanged⟩ := Prod.mk.inj (Except.ok.inj (hrun.symm.trans c.followed))
  have hupdated := c.updated
  rw [← hchanged, Store.update_self] at hupdated
  obtain ⟨hstore, hrow⟩ := Prod.mk.inj (Except.ok.inj hupdated)
  exact ⟨hchanged.symm, hstore, hrow⟩

/-- A hook behind a change that leaves the record alone leaves what was flushed. -/
theorem Change.settled {before after : Store} (c : Change r now address payload before after)
    (hafter : r.LeavesAlone .afterUpdate now) :
    c.changed = stamped r.model
        (Store.changes now r.model (Record.ofRow r.model c.found) c.record) c.record ∧
      c.between = after ∧ c.flushed = c.row := by
  obtain ⟨answer, hrun⟩ := hafter c.between (stamped r.model
    (Store.changes now r.model (Record.ofRow r.model c.found) c.record) c.record)
  obtain ⟨-, hchanged⟩ := Prod.mk.inj (Except.ok.inj (hrun.symm.trans c.followed))
  have hupdated := c.updated
  rw [← hchanged, Store.update_self] at hupdated
  obtain ⟨hstore, hrow⟩ := Prod.mk.inj (Except.ok.inj hupdated)
  exact ⟨hchanged.symm, hstore, hrow⟩

/-- A creation loses no row when its key is unset or a number and the hook behind it leaves the
record alone. -/
theorem Creation.isNamed {before : State} {after : Store}
    (c : Creation r now payload before after) (hm : r.model.Keyed)
    (hkey : NumbersKey r.model c.record) (hafter : r.LeavesAlone .afterCreate now) : c.IsNamed := by
  obtain ⟨hchanged, -, hrow⟩ := c.settled hafter
  rw [IsNamed, held, hchanged, ← hrow, Store.isNamedBy_stamped_self]
  exact Store.isNamedBy_inserted hm c.inserted hkey

/-- A change loses no row when the hook behind it leaves the record alone. -/
theorem Change.isNamed {before after : Store} (c : Change r now address payload before after)
    (hm : r.model.Keyed) (hafter : r.LeavesAlone .afterUpdate now) : c.IsNamed := by
  obtain ⟨hchanged, -, hrow⟩ := c.settled hafter
  rw [IsNamed, held, hchanged, ← hrow, Store.isNamedBy_stamped_self]
  exact Store.isNamedBy_stamped hm (fun _ hc => key_of_find c.at_address hc) c.written

/-- Without hooks no creation loses its row. -/
theorem Creation.isNamed_of_hooks_nil {before : State} {after : Store}
    (c : Creation r now payload before after) (hm : r.model.Keyed) (hhooks : r.hooks = []) :
    c.IsNamed := by
  have hnone := hook?_of_hooks_nil hhooks
  refine c.isNamed hm ?_ (leavesAlone_of_hook?_none (hnone .afterCreate) now)
  rw [c.record_of_hook?_none (hnone .beforeCreate)]
  exact numbersKey_of_sanitize hm c.sanitized

theorem Change.isNamed_of_hooks_nil {before after : Store}
    (c : Change r now address payload before after) (hm : r.model.Keyed) (hhooks : r.hooks = []) :
    c.IsNamed :=
  c.isNamed hm (leavesAlone_of_hook?_none (hook?_of_hooks_nil hhooks .afterUpdate) now)

end TableApi.Resource
