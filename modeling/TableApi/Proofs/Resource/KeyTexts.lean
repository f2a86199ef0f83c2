import TableApi.Proofs.Coercion.Shown
import TableApi.Proofs.Resource.Address
import TableApi.Proofs.Resource.Overflow
import TableApi.Proofs.Resource.Scope
import TableApi.Proofs.Resource.Writes
import TableApi.Proofs.Store.UniqueKeys

/-! Texts for keys. A text names the one row whose key is the integer, the identifier or the text
that it denotes, or it names nothing, and then the requests to one record answer that there is none
before they touch anything. Integers beyond the range of the store are the exception: no row has
one, but the store overflows instead of finding none. -/

namespace TableApi

open Number

/-- The value that a text denotes in a column of keys. -/
inductive Column.Denotes (c : Column) (s : String) : Value → Prop where
  | integer {n : Int} (hkind : c.kind = .integer) (h : readInteger? s = some n) : Denotes c s (.int n)
  | uuid {u : Uuid} (hkind : c.kind = .uuid) (h : Uuid.read? s = some u) : Denotes c s (.uuid u)
  | text (hkind : c.kind = .text) : Denotes c s (.text s)

/-- A value that the store can hold, as all values of keys but wide integers are. -/
def Value.IsNarrow (v : Value) : Prop := ∀ n, v = .int n → fitsStore n = true

def Row.Has (row : Row) (c : Column) (key : Value) : Prop := row.cell c.name = c.kept key

variable {σ : Schema} {m : Model} {c : Column} {s : String} {key : Value} {row : Row}

/-! ### Keys and their cells -/

theorem Column.kept_uuid (hkind : c.kind = .uuid) (u : Uuid) :
    c.kept (.uuid u) = .text u.plainText := by
  rw [kept, hkind]
  rfl

theorem Column.kept_text (hkind : c.kind = .text) (s : String) : c.kept (.text s) = .text s := by
  rw [kept, hkind]
  rfl

theorem Column.Denotes.load_kept (h : c.Denotes s key) (hnarrow : key.IsNarrow) :
    (c.kept key).load c.kind = key := by
  cases h with
  | integer hkind _ =>
    rw [Column.kept_int hkind (hnarrow _ rfl), hkind]
    rfl
  | uuid hkind _ =>
    rw [Column.kept_uuid hkind, hkind]
    exact load_uuid _
  | text hkind =>
    rw [Column.kept_text hkind, hkind]
    rfl

theorem Column.Denotes.isNull_kept (h : c.Denotes s key) (hnarrow : key.IsNarrow) :
    (c.kept key).isNull = false := by
  cases h with
  | integer hkind _ =>
    rw [Column.kept_int hkind (hnarrow _ rfl)]
    rfl
  | uuid hkind _ =>
    rw [Column.kept_uuid hkind]
    rfl
  | text hkind =>
    rw [Column.kept_text hkind]
    rfl

/-- A cell in the form of its column is that of a key exactly when it is loaded as the key. -/
theorem Column.Denotes.has_iff (h : c.Denotes s key) (hnarrow : key.IsNarrow)
    (hcell : (row.cell c.name).Belongs c.kind) :
    row.Has c key ↔ (row.cell c.name).load c.kind = key := by
  unfold Row.Has
  constructor
  · intro hhas
    rw [hhas, h.load_kept hnarrow]
  · intro hload
    generalize row.cell c.name = cell at hcell hload
    rcases hcell with rfl | hform
    · cases h with
      | integer hkind _ | uuid hkind _ | text hkind =>
        rw [hkind] at hload
        cases hload
    · cases h with
      | integer hkind _ =>
        rw [hkind] at hform hload
        obtain ⟨n, rfl, -⟩ := hform
        cases hload
        rw [Column.kept_int hkind (hnarrow _ rfl)]
      | uuid hkind _ =>
        rw [hkind] at hform hload
        obtain ⟨u, rfl⟩ := hform
        rw [load_uuid] at hload
        cases hload
        rw [Column.kept_uuid hkind]
      | text hkind =>
        rw [hkind] at hform hload
        obtain ⟨t, rfl⟩ := hform
        cases hload
        rw [Column.kept_text hkind]

/-! ### Rows by their keys -/

theorem Model.rowNumber?_of_soleKey? (h : m.soleKey? = some c) (hkind : c.kind = .integer) :
    m.rowNumber? = some c := by
  rw [rowNumber?, h]
  exact if_pos hkind

/-- What is read from a text is the key that it denotes, or that there is no record. -/
theorem Model.readKey_text (hsole : m.soleKey? = some c)
    (hkind : c.kind = .integer ∨ c.kind = .uuid ∨ c.kind = .text) (s : String) :
    (∃ key, c.Denotes s key ∧ m.readKey (.text s) = .ok key) ∨
      (∀ key, ¬ c.Denotes s key) ∧ m.readKey (.text s) = .error .noRecord := by
  unfold readKey
  rw [hsole]
  rcases hkind with hkind | hkind | hkind
  · simp only [hkind, Value.plainText]
    cases hread : readInteger? s with
    | some n => exact .inl ⟨_, .integer hkind hread, rfl⟩
    | none =>
      refine .inr ⟨fun key h => ?_, rfl⟩
      cases h with
      | integer _ h => cases hread.symm.trans h
      | uuid hother _ | text hother => cases hkind.symm.trans hother
  · simp only [hkind, Value.plainText]
    cases hread : Uuid.read? s with
    | some u => exact .inl ⟨_, .uuid hkind hread, rfl⟩
    | none =>
      refine .inr ⟨fun key h => ?_, rfl⟩
      cases h with
      | uuid _ h => cases hread.symm.trans h
      | integer hother _ | text hother => cases hkind.symm.trans hother
  · simp only [hkind]
    exact .inl ⟨_, .text hkind, rfl⟩

/-- A text denotes one key at most. -/
theorem Column.Denotes.unique {key' : Value} (h : c.Denotes s key) (h' : c.Denotes s key') :
    key = key' := by
  cases h with
  | integer hkind hread =>
    cases h' with
    | integer _ hread' => rw [Option.some.inj (hread.symm.trans hread')]
    | uuid hother _ | text hother => cases hkind.symm.trans hother
  | uuid hkind hread =>
    cases h' with
    | uuid _ hread' => rw [Option.some.inj (hread.symm.trans hread')]
    | integer hother _ | text hother => cases hkind.symm.trans hother
  | text hkind =>
    cases h' with
    | text _ => rfl
    | integer hother _ | uuid hother _ => cases hkind.symm.trans hother

namespace Store

variable {store : Store}

/-- A text is compared with no cell as equal but its own. -/
theorem compares_equal_text (cell : Cell) (t : String) :
    Affinity.text.compares .equal cell (.text t) = (cell == .text t) := by
  have hcompares : Affinity.text.compares .equal cell (.text t) =
      (!cell.isNull && (cell.order (.text t) == .eq)) := by
    rw [Affinity.compares]
    cases cell <;> rfl
  rw [hcompares]
  cases cell with
  | text u =>
    have horder : (Cell.text u).order (.text t) = compare u t := rfl
    rw [Bool.eq_iff_iff, horder]
    simp [Cell.isNull]
  | real x =>
    cases x with
    | infinite negative => cases negative <;> rfl
    | _ => rfl
  | _ => rfl

theorem find?_text (hsole : m.soleKey? = some c) (haffinity : c.kind.affinity = .text) {t : String}
    (hprepare : c.kind.parameterType.prepare key = .ok (.cell (.text t))) :
    store.find? m key = .ok ((store.rows m).find? fun row => row.cell c.name == .text t) := by
  simp only [find?, hsole, Select.prepareAll, hprepare, bind, Except.bind, Except.map, bindAll,
    List.all_cons, List.all_nil, Bool.and_true, haffinity, compares_equal_text]
  rfl

/-- The row is found that has the key. -/
theorem find?_of_denotes (hs : store.Sound σ) (hm : m ∈ σ.models) (hsole : m.soleKey? = some c)
    (h : c.Denotes s key) (hnarrow : key.IsNarrow) :
    store.find? m key = .ok ((store.rows m).find? fun row => row.cell c.name == c.kept key) := by
  cases h with
  | integer hkind _ =>
    have hnumber := Model.rowNumber?_of_soleKey? hsole hkind
    rw [find?_int hs hm hnumber, if_pos (hnarrow _ rfl)]
    refine congrArg Except.ok (List.find?_congr fun row hrow => ?_)
    rw [hs.numbers hm row hrow c hnumber, Column.kept_int hkind (hnarrow _ rfl), Bool.eq_iff_iff]
    simp
  | uuid hkind _ =>
    rw [Column.kept_uuid hkind]
    exact find?_text hsole (by rw [hkind]; rfl) (by rw [hkind]; rfl)
  | text hkind =>
    rw [Column.kept_text hkind]
    exact find?_text hsole (by rw [hkind]; rfl) (by rw [hkind]; rfl)

theorem UniqueKeys.eq_of_has (h : store.UniqueKeys) (hs : store.Sound σ) (hm : m ∈ σ.models)
    (hsole : m.soleKey? = some c) (hcell : (c.kept key).isNull = false) {other : Row}
    (hrow : row ∈ store.rows m) (hother : other ∈ store.rows m) (hhas : row.Has c key)
    (hhas' : other.Has c key) : other = row := by
  have hclash : clashes other row m.primaryKey = true := by
    rw [Row.Has] at hhas hhas'
    simp [clashes, Model.primaryKey_of_soleKey? hsole, hhas, hhas', sameCell_self hcell]
  exact h.unique hs hm m.primaryKey List.mem_cons_self other hother row hrow hclash

end Store

namespace Resource

variable {r : Resource} {state : State} {store : Store}

/-- What a text for a key comes to: the one row that has the key, which is loaded with it; none,
where no cell in the form of its column is loaded as the key either; or an overflow. -/
inductive Resolves (r : Resource) (store : Store) (c : Column) (s : String) :
    Except ServiceError Row → Prop where
  | found {key : Value} {row : Row} (hkey : c.Denotes s key) (hnarrow : key.IsNarrow)
    (hrow : row ∈ store.rows r.model) (hhas : row.Has c key)
    (hload : (row.cell c.name).load c.kind = key)
    (honly : ∀ other ∈ store.rows r.model, other.Has c key → other = row) :
    Resolves r store c s (.ok row)
  | missing (hnarrow : ∀ key, c.Denotes s key → key.IsNarrow)
    (hnone : ∀ key, c.Denotes s key → ∀ row ∈ store.rows r.model, ¬ row.Has c key)
    (hload : ∀ key, c.Denotes s key → ∀ row ∈ store.rows r.model,
      (row.cell c.name).Belongs c.kind → (row.cell c.name).load c.kind ≠ key) :
    Resolves r store c s (.error (.refused .noRecord))
  | wide {n : Int} (hkey : c.Denotes s (.int n)) (hwide : fitsStore n = false) :
    Resolves r store c s (.error overflow)

theorem Resolves.of_none (hnarrow : ∀ key, c.Denotes s key → key.IsNarrow)
    (hnone : ∀ key, c.Denotes s key → ∀ row ∈ store.rows r.model, ¬ row.Has c key) :
    r.Resolves store c s (.error (.refused .noRecord)) :=
  .missing hnarrow hnone fun key hkey row hrow hcell hload =>
    hnone key hkey row hrow ((hkey.has_iff (hnarrow key hkey) hcell).2 hload)

/-- A text for the key of a model comes to what it denotes. -/
theorem resolves_find (hs : store.Sound σ) (hunique : store.UniqueKeys) (hm : r.model ∈ σ.models)
    (hsole : r.model.soleKey? = some c)
    (hkind : c.kind = .integer ∨ c.kind = .uuid ∨ c.kind = .text) (s : String) :
    r.Resolves store c s (r.find store (.text s)) := by
  unfold find
  rcases Model.readKey_text hsole hkind s with ⟨key, hkey, hread⟩ | ⟨hnone, hread⟩
  · by_cases hnarrow : key.IsNarrow
    · have hfind := Store.find?_of_denotes hs hm hsole hkey hnarrow
      simp only [hread, mapError_ok, bind, Except.bind, hfind]
      cases hrow : (store.rows r.model).find? fun row => row.cell c.name == c.kept key with
      | some row =>
        have hmem := List.mem_of_find?_eq_some hrow
        have hhas : row.cell c.name = c.kept key := by simpa using List.find?_some hrow
        have hload : (row.cell c.name).load c.kind = key := by
          rw [hhas, hkey.load_kept hnarrow]
        exact .found hkey hnarrow hmem hhas hload fun other hother hhas' =>
          hunique.eq_of_has hs hm hsole (hkey.isNull_kept hnarrow) hmem hother hhas hhas'
      | none =>
        refine .of_none (fun key' h => hkey.unique h ▸ hnarrow) fun key' h row hmem => ?_
        rw [← hkey.unique h, Row.Has]
        simpa using List.find?_eq_none.1 hrow row hmem
    · obtain ⟨n, hn⟩ := not_forall.1 hnarrow
      obtain ⟨rfl, hwide⟩ := Classical.not_imp.1 hn
      have hinteger : c.kind = .integer := by
        cases hkey with
        | integer hkind _ => exact hkind
      have hfind := Store.find?_int hs hm (Model.rowNumber?_of_soleKey? hsole hinteger) n
      rw [if_neg hwide] at hfind
      simp only [hread, mapError_ok, bind, Except.bind, hfind]
      exact .wide hkey (by simpa using hwide)
  · simp only [hread, mapError_error, bind, Except.bind]
    exact .of_none (fun key h => absurd h (hnone key)) fun key h => absurd h (hnone key)

/-! ### Requests -/

theorem uniqueKeys_of_reachable (h : Reachable σ state) : state.store.UniqueKeys :=
  kept_of_reachable (Store.uniqueKeys_empty σ.models)
    (fun hs hm hunique hinsert => hunique.insert hs hm hinsert)
    (fun hs hm hrow hunique hupdate => hunique.update hs hm hrow hupdate)
    (fun hs hm hunique hdelete => hunique.delete hs hm hdelete) h

/-- What the requests to one record make of a text for its key. -/
structure ActsOn (r : Resource) (state : State) (s : String) (x : Except ServiceError Row) :
    Prop where
  shows : ∀ requested, r.show_ (.text s) requested state.store =
    x.map (r.answerRow .show_ requested)
  /-- Nothing is touched where no row is found. -/
  refuses : ∀ e, x = .error e →
    (∀ now payload, r.update now (.text s) payload state = ⟨.error e, state, []⟩) ∧
      r.destroy (.text s) state = ⟨.error e, state, []⟩
  /-- A found row is what the store is asked to change. -/
  updates : ∀ row, x = .ok row → r.hooks = [] → ∀ now payload clean,
    r.sanitize payload true = .ok clean → (r.update now (.text s) payload state).result =
      r.ofWrite (state.store.update now r.model row (Record.ofRow r.model row)
        (Entries.putAll (Record.ofRow r.model row) clean))
  destroys : ∀ row, x = .ok row → r.destroy (.text s) state =
    if state.store.isReferenced r.model row then ⟨.error (.refused .related), state, []⟩
    else ⟨.ok (), ⟨state.store.setRows r.model (Store.without row (state.store.rows r.model)),
      state.drawn⟩, []⟩

theorem actsOn_find (hs : state.store.Sound σ) (hm : r.model ∈ σ.models) (s : String) :
    r.ActsOn state s (r.find state.store (.text s)) where
  shows requested := show_eq requested state.store
  refuses e he := ⟨fun now payload => update_of_find_eq_error he now payload,
    destroy_of_find_eq_error he⟩
  updates row hrow hhooks now payload clean hclean := by
    have hnone := hook?_of_hooks_nil hhooks
    exact update_result_eq hs hm hrow hclean (runHook_of_hook?_none (hnone .beforeUpdate) _)
      (leavesAlone_of_hook?_none (hnone .afterUpdate) now)
  destroys row hrow := destroy_of_find_eq_ok hrow

/-- In every state that a service reaches, a text for the key of a record names the one row with the
key that it denotes, or it names nothing and is refused before anything is touched, unless it
denotes an integer beyond the range of the store, where the requests overflow. -/
theorem key_texts_name_rows (hstate : Reachable σ state) (hm : r.model ∈ σ.models)
    (hsole : r.model.soleKey? = some c)
    (hkind : c.kind = .integer ∨ c.kind = .uuid ∨ c.kind = .text) (s : String) :
    ∃ x, r.Resolves state.store c s x ∧ r.ActsOn state s x :=
  ⟨r.find state.store (.text s),
    resolves_find (sound_of_reachable hstate) (uniqueKeys_of_reachable hstate) hm hsole hkind s,
    actsOn_find (sound_of_reachable hstate) hm s⟩

/-! ### Posts -/

/-- The first post is named by its number with a sign, a zero in front and white space around it. -/
theorem first_post_named_oddly : ∃ registry r c row,
    Registry.register [] Posts.registration = .ok (registry, r) ∧
      Reachable postsSchema (r.afterCreating publishedPost) ∧ r.model.soleKey? = some c ∧
      c.kind = .integer ∧ r.Resolves (r.afterCreating publishedPost).store c " +0_1\n" (.ok row) ∧
      r.ActsOn (r.afterCreating publishedPost) " +0_1\n" (.ok row) := by
  have hshown : (Registry.register [] Posts.registration).toOption.map (fun p =>
      (p.2.show_ (.text " +0_1\n") none
        (p.2.afterCreating publishedPost).store).toOption.isSome) = some true := by
    decide +kernel
  obtain ⟨⟨registry, r⟩, hregister, hshown⟩ := exists_of_toOption_map hshown
  have hm := mem_postsSchema_of_register hregister rfl
  have hstate : Reachable postsSchema (r.afterCreating publishedPost) :=
    .perform (.empty 0) hm noon (.create publishedPost)
  have hsole : r.model.soleKey? = some Posts.model.columns[0] := by
    rw [Registry.model_of_register hregister]
    rfl
  obtain ⟨x, hresolves, hacts⟩ := key_texts_name_rows hstate hm hsole (.inl rfl) " +0_1\n"
  have hok : ∃ row, x = .ok row := by
    rw [hacts.shows none] at hshown
    cases x with
    | ok row => exact ⟨row, rfl⟩
    | error e => cases hshown
  obtain ⟨row, rfl⟩ := hok
  exact ⟨registry, r, _, row, hregister, hstate, hsole, rfl, hresolves, hacts⟩

/-- The number behind the last one of the store is that of no post, and the requests for it are not
answered with that. -/
theorem wide_number_overflows : ∃ registry r,
    Registry.register [] Posts.registration = .ok (registry, r) ∧
      readInteger? "9223372036854775808" = some 9223372036854775808 ∧
      (∀ row ∈ (r.afterCreating publishedPost).store.rows r.model,
        row.number ≠ 9223372036854775808) ∧
      (∀ requested, r.show_ (.text "9223372036854775808") requested
        (r.afterCreating publishedPost).store ≠ .error (.refused .noRecord)) ∧
      (∀ payload, (r.update noon (.text "9223372036854775808") payload
        (r.afterCreating publishedPost)).result ≠ .error (.refused .noRecord)) ∧
      (r.destroy (.text "9223372036854775808") (r.afterCreating publishedPost)).result ≠
        .error (.refused .noRecord) := by
  have hread : readInteger? "9223372036854775808" = some 9223372036854775808 := by decide +kernel
  have hrows : (Registry.register [] Posts.registration).toOption.map (fun p =>
      ((p.2.afterCreating publishedPost).store.rows p.2.model).all
        (·.number != 9223372036854775808)) = some true := by
    decide +kernel
  obtain ⟨⟨registry, r⟩, hregister, hrows⟩ := exists_of_toOption_map hrows
  have hm := mem_postsSchema_of_register hregister rfl
  have hstate : Reachable postsSchema (r.afterCreating publishedPost) :=
    .perform (.empty 0) hm noon (.create publishedPost)
  have hnumber : r.model.rowNumber? = some Posts.model.columns[0] := by
    rw [Registry.model_of_register hregister]
    rfl
  have hfind : r.find (r.afterCreating publishedPost).store (.text "9223372036854775808") =
      .error overflow := by
    have haddress : idOf? (.text "9223372036854775808") = some 9223372036854775808 := hread
    rw [find_eq (sound_of_reachable hstate) hm hnumber, haddress]
    rfl
  refine ⟨registry, r, hregister, hread, by simpa using hrows, fun requested => ?_,
    fun payload => ?_, ?_⟩
  · rw [show_eq, hfind]
    nofun
  · rw [update_of_find_eq_error hfind]
    nofun
  · rw [destroy_of_find_eq_error hfind]
    nofun

end Resource

end TableApi
