import TableApi.Proofs.Statement.Check

/-! The integers that a statement hands to the store. The store takes those of 64 bits; a wider one
is the only thing that overflows, and a statement with a wider one never runs. -/

namespace TableApi

open Number

/-- The integer that a parameter hands to the store as it is. -/
def Select.integer? : ParameterType × Value → Option Int
  | (.asGiven, .int n) => some n
  | _ => none

/-- The integers that a statement hands to the store, in the order of its parameters. -/
def Select.integers (s : Select) : List Int := s.parameters.filterMap Select.integer?

def Clause.integers (clause : Clause) : List Int := clause.parameters.filterMap Select.integer?

theorem Select.integers_eq_flatMap {s : Select} (h : s.isWindowed = false) :
    s.integers = s.clauses.flatMap Clause.integers := by
  have hwindow : s.windowParameters = [] := by simp [windowParameters, h]
  rw [integers, parameters, hwindow, List.append_nil, List.filterMap_flatMap]
  rfl

namespace ParameterType

theorem ofDouble_ne_wide (x : Double) : Prepared.ofDouble x ≠ .wide := nofun

theorem prepareNumber_ne_wide (v : Value) : prepareNumber v ≠ .ok .wide := by
  have hdouble : ∀ x, (.ok (.ofDouble x) : Except PrepareError Prepared) ≠ .ok .wide :=
    fun x h => ofDouble_ne_wide x (Except.ok.inj h)
  unfold prepareNumber
  -- How integers become floats does not matter, and must not be computed.
  obtain ⟨toDouble?, h⟩ : ∃ f, f = Double.ofInt? := ⟨_, rfl⟩
  rw [← h]
  cases v with
  | bool b => exact hdouble _
  | int n =>
    dsimp only
    split
    · exact hdouble _
    · nofun
  | float x => exact hdouble x
  | decimal d =>
    dsimp only
    split
    · exact hdouble _
    · nofun
  | text s =>
    dsimp only
    split
    · exact hdouble _
    · nofun
  | _ => nofun

theorem prepareBoolean_ne_wide (v : Value) : prepareBoolean v ≠ .ok .wide := by
  unfold prepareBoolean
  intro h
  split at h <;> repeat' split at h
  all_goals simp at h

theorem ofValue_eq_wide_iff {v : Value} :
    Prepared.ofValue v = .wide ↔ ∃ n, v = .int n ∧ fitsStore n = false := by
  cases v with
  | int n =>
    simp only [Prepared.ofValue, Prepared.ofInt]
    split <;> simp_all
  | _ => simp [Prepared.ofValue, Prepared.ofDouble]

/-- Only integers that are handed over as they are can be too wide. -/
theorem prepare_eq_wide_iff {p : ParameterType × Value} :
    p.1.prepare p.2 = .ok .wide ↔ ∃ n, Select.integer? p = some n ∧ fitsStore n = false := by
  obtain ⟨type, v⟩ := p
  cases type with
  | asGiven =>
    rw [prepare, Except.ok.injEq, ofValue_eq_wide_iff]
    cases v <;> simp [Select.integer?]
  | number => simp [prepare, prepareNumber_ne_wide, Select.integer?]
  | boolean => simp [prepare, prepareBoolean_ne_wide, Select.integer?]
  | date => cases v <;> simp [prepare, prepareDate, Select.integer?]
  | moment => cases v <;> simp [prepare, prepareMoment, Select.integer?]
  | uuid => cases v <;> simp [prepare, prepareUuid, Select.integer?]
  | json =>
    simp only [prepare, prepareJson, Select.integer?]
    split <;> simp

end ParameterType

namespace Select

theorem binds_of_integer {p : ParameterType × Value} {n : Int} (h : integer? p = some n) :
    Binds p ↔ fitsStore n = true := by
  obtain ⟨type, v⟩ := p
  cases type <;> cases v <;> cases h
  simp only [Binds, ParameterType.prepare, Prepared.ofValue, Prepared.ofInt]
  split <;> simp_all

variable {s : Select} {store : Store}

/-! ### Preparing and binding -/

theorem exists_of_mem_prepareAll {ps : List (ParameterType × Value)} {prepared : List Prepared}
    (h : prepareAll ps = .ok prepared) {q : Prepared} (hq : q ∈ prepared) :
    ∃ p ∈ ps, p.1.prepare p.2 = .ok q := by
  induction ps generalizing prepared with
  | nil =>
    cases h
    cases hq
  | cons p rest ih =>
    obtain ⟨type, v⟩ := p
    cases hp : type.prepare v with
    | error e =>
      rw [prepareAll, hp] at h
      cases h
    | ok first =>
      cases hr : prepareAll rest with
      | error e =>
        rw [prepareAll, hp, hr] at h
        cases h
      | ok more =>
        rw [prepareAll, hp, hr] at h
        cases h
        rcases List.mem_cons.1 hq with rfl | hmem
        · exact ⟨(type, v), List.mem_cons_self, hp⟩
        · obtain ⟨p, hmem, hprepared⟩ := ih hr hmem
          exact ⟨p, List.mem_cons_of_mem _ hmem, hprepared⟩

theorem wide_mem_of_bindAll {position : Nat} {prepared : List Prepared}
    (h : bindAll position prepared = .error .wideInteger) : Prepared.wide ∈ prepared := by
  induction prepared generalizing position with
  | nil => cases h
  | cons p rest ih =>
    cases p with
    | cell c =>
      cases hr : bindAll (position + 1) rest with
      | ok cells =>
        rw [bindAll, hr] at h
        cases h
      | error e =>
        rw [bindAll, hr] at h
        cases h
        exact List.mem_cons_of_mem _ (ih hr)
    | wide => exact List.mem_cons_self
    | foreign kind => cases h

theorem bindAll_eq_wide {position : Nat} {prepared : List Prepared}
    (htaken : ∀ q ∈ prepared, q = .wide ∨ ∃ c, q = .cell c) (h : Prepared.wide ∈ prepared) :
    bindAll position prepared = .error .wideInteger := by
  induction prepared generalizing position with
  | nil => cases h
  | cons p rest ih =>
    obtain ⟨hfirst, hrest⟩ := List.forall_mem_cons.1 htaken
    rcases hfirst with rfl | ⟨c, rfl⟩
    · rfl
    · have hlater : Prepared.wide ∈ rest := by simpa using h
      rw [bindAll, ih hrest hlater]
      rfl

theorem exists_prepareAll {ps : List (ParameterType × Value)}
    (h : ∀ p ∈ ps, ∃ q, p.1.prepare p.2 = .ok q) :
    ∃ prepared, prepareAll ps = .ok prepared ∧
      ∀ p ∈ ps, ∃ q ∈ prepared, p.1.prepare p.2 = .ok q := by
  induction ps with
  | nil => exact ⟨[], rfl, nofun⟩
  | cons p rest ih =>
    obtain ⟨⟨q, hq⟩, hrest⟩ := List.forall_mem_cons.1 h
    obtain ⟨prepared, hprepared, hmem⟩ := ih hrest
    refine ⟨q :: prepared, ?_, List.forall_mem_cons.2 ⟨⟨q, List.mem_cons_self, hq⟩, ?_⟩⟩
    · rw [prepareAll, hq, hprepared]
      rfl
    · intro p hp
      obtain ⟨q, hmem, hq⟩ := hmem p hp
      exact ⟨q, List.mem_cons_of_mem _ hmem, hq⟩

/-! ### Overflow -/

/-- Preparing fails at one of the parameters. -/
theorem of_prepareAll_eq_error {ps : List (ParameterType × Value)} {e : StoreError}
    (h : prepareAll ps = .error e) :
    ∃ p ∈ ps, ∃ failure, p.1.prepare p.2 = .error failure ∧ e = .prepare failure := by
  induction ps with
  | nil => cases h
  | cons p rest ih =>
    obtain ⟨type, v⟩ := p
    cases hp : type.prepare v with
    | error failure =>
      rw [prepareAll, hp] at h
      exact ⟨(type, v), List.mem_cons_self, failure, hp, (Except.error.inj h).symm⟩
    | ok first =>
      cases hr : prepareAll rest with
      | ok more =>
        rw [prepareAll, hp, hr] at h
        cases h
      | error e' =>
        rw [prepareAll, hp, hr] at h
        obtain ⟨q, hq, hfailure⟩ := ih (hr.trans (congrArg _ (Except.error.inj h)))
        exact ⟨q, List.mem_cons_of_mem _ hq, hfailure⟩

theorem prepareAll_ne_bind (ps : List (ParameterType × Value)) (e : BindError) :
    prepareAll ps ≠ .error (.bind e) := by
  intro h
  obtain ⟨p, -, failure, -, hfailure⟩ := of_prepareAll_eq_error h
  cases hfailure

/-- Binding is refused once everything is prepared and every name has a meaning. -/
theorem check_eq_bind_iff {e : BindError} :
    s.check store = .error (.bind e) ↔ s.output ≠ .nothing ∧ s.unknownName? = none ∧
      ∃ prepared, prepareAll s.parameters = .ok prepared ∧ bindAll 1 prepared = .error e := by
  unfold check
  simp only [bind, Except.bind, pure, Except.pure, throw, throwThe, MonadExceptOf.throw]
  by_cases ho : s.output = .nothing
  · simp [ho]
  rw [if_neg (by cases hs : s.output <;> simp_all)]
  cases hp : prepareAll s.parameters with
  | error failure =>
    have hne : failure ≠ .bind e := fun h => prepareAll_ne_bind _ e (h ▸ hp)
    simp [hne]
  | ok prepared =>
    cases hu : s.unknownName? with
    | some name => simp
    | none =>
      cases hb : bindAll 1 prepared with
      | error failure => simp [hb, ho]
      | ok cells =>
        simp only [hb]
        split <;> simp [hb]

theorem exists_unfit_of_overflow (h : s.check store = .error (.bind .wideInteger)) :
    ∃ n ∈ s.integers, fitsStore n = false := by
  obtain ⟨-, -, prepared, hprepared, hbind⟩ := check_eq_bind_iff.1 h
  obtain ⟨p, hp, hwide⟩ := exists_of_mem_prepareAll hprepared (wide_mem_of_bindAll hbind)
  obtain ⟨n, hn, hunfit⟩ := ParameterType.prepare_eq_wide_iff.1 hwide
  exact ⟨n, List.mem_filterMap.2 ⟨p, hp, hn⟩, hunfit⟩

/-- Where everything but the integers can be bound, an integer that does not fit overflows. -/
theorem overflow_of_unfit (houtput : s.output ≠ .nothing) (hnames : s.unknownName? = none)
    (hothers : ∀ p ∈ s.parameters, Binds p ∨ (integer? p).isSome) {n : Int} (hn : n ∈ s.integers)
    (hunfit : fitsStore n = false) : s.check store = .error (.bind .wideInteger) := by
  have htaken : ∀ p ∈ s.parameters, ∃ q, p.1.prepare p.2 = .ok q ∧
      (q = .wide ∨ ∃ c, q = .cell c) := by
    intro p hp
    rcases hothers p hp with ⟨c, hc⟩ | hinteger
    · exact ⟨_, hc, Or.inr ⟨c, rfl⟩⟩
    · obtain ⟨k, hk⟩ := Option.isSome_iff_exists.1 hinteger
      cases hfits : fitsStore k with
      | true =>
        obtain ⟨c, hc⟩ := (binds_of_integer hk).2 hfits
        exact ⟨_, hc, Or.inr ⟨c, rfl⟩⟩
      | false => exact ⟨_, ParameterType.prepare_eq_wide_iff.2 ⟨k, hk, hfits⟩, Or.inl rfl⟩
  obtain ⟨prepared, hprepared, hall⟩ :=
    exists_prepareAll fun p hp => (htaken p hp).imp fun _ h => h.1
  obtain ⟨p, hp, hpn⟩ := List.mem_filterMap.1 hn
  obtain ⟨q, hq, hpq⟩ := hall p hp
  have hwide : q = .wide := by
    rw [ParameterType.prepare_eq_wide_iff.2 ⟨n, hpn, hunfit⟩] at hpq
    exact (Except.ok.inj hpq).symm
  refine check_eq_bind_iff.2 ⟨houtput, hnames, prepared, hprepared,
    bindAll_eq_wide (fun q hq => ?_) (hwide ▸ hq)⟩
  obtain ⟨p, hp, hpq⟩ := exists_of_mem_prepareAll hprepared hq
  obtain ⟨q', hq', htaken⟩ := htaken p hp
  exact Except.ok.inj (hpq.symm.trans hq') ▸ htaken

theorem fits_of_check (h : s.check store = .ok ()) : ∀ n ∈ s.integers, fitsStore n = true := by
  intro n hn
  obtain ⟨p, hp, hpn⟩ := List.mem_filterMap.1 hn
  exact (binds_of_integer hpn).1 (((check_eq_ok_iff s store).1 h).2.1 p hp)

end Select

end TableApi
