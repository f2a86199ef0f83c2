/-! Entries: keyed values in the order in which their keys first came. -/

namespace TableApi

/-- Keyed values in order. -/
abbrev Entries (α : Type) := List (String × α)

namespace Entries

variable {α β : Type}

def get? (entries : Entries α) (key : String) : Option α := List.lookup key entries

def has (entries : Entries α) (key : String) : Bool := (get? entries key).isSome

/-- Give a key its value: in its place when the key is there, at the end when it is new. -/
def put (key : String) (value : α) : Entries α → Entries α
  | [] => [(key, value)]
  | (k, v) :: rest => if k = key then (k, value) :: rest else (k, v) :: put key value rest

/-- Give many keys their values, one after the other. -/
def putAll (entries additions : Entries α) : Entries α :=
  additions.foldl (fun acc (key, value) => put key value acc) entries

def keys (entries : Entries α) : List String := entries.map Prod.fst

/-! ### Lookup -/

@[simp] theorem get?_nil (key : String) : get? ([] : Entries α) key = none := rfl

theorem get?_cons (key k : String) (v : α) (rest : Entries α) :
    get? ((k, v) :: rest) key = if k = key then some v else get? rest key := by
  by_cases h : k = key
  · simp [get?, h]
  · simp [get?, h, List.lookup_cons, beq_eq_false_iff_ne.2 (Ne.symm h)]

/-- Looking up in entries that are made from a list is finding in the list. -/
theorem get?_map (name : β → String) (f : β → α) (xs : List β) (key : String) :
    get? (xs.map fun x => (name x, f x)) key = (xs.find? fun x => name x == key).map f := by
  induction xs with
  | nil => rfl
  | cons x rest ih =>
    rw [List.map_cons, get?_cons, List.find?_cons]
    by_cases h : name x = key
    · simp [h]
    · have hne : (name x == key) = false := beq_eq_false_iff_ne.2 h
      rw [if_neg h, ih, hne]

theorem get?_eq_none_iff {entries : Entries α} {key : String} :
    get? entries key = none ↔ key ∉ keys entries := by
  induction entries with
  | nil => simp [keys]
  | cons entry rest ih =>
    obtain ⟨k, v⟩ := entry
    by_cases h : k = key
    · simp [get?_cons, h, keys]
    · simp only [get?_cons, if_neg h, ih, keys, List.map_cons, List.mem_cons, Ne.symm h, false_or]

theorem mem_of_get?_eq_some {entries : Entries α} {key : String} {value : α}
    (h : get? entries key = some value) : (key, value) ∈ entries := by
  induction entries with
  | nil => cases h
  | cons entry rest ih =>
    obtain ⟨k, v⟩ := entry
    rw [get?_cons] at h
    split at h
    · next heq =>
      cases h
      rw [heq]
      exact List.mem_cons_self
    · exact List.mem_cons_of_mem _ (ih h)

/-- Putting a value changes the look-up of its key and of no other. -/
theorem get?_put (key other : String) (value : α) (entries : Entries α) :
    get? (put key value entries) other =
      if key = other then some value else get? entries other := by
  induction entries with
  | nil => simp [put, get?_cons]
  | cons entry rest ih =>
    obtain ⟨k, v⟩ := entry
    by_cases hk : k = key
    · subst hk
      by_cases ho : k = other <;> simp [put, get?_cons, ho]
    · by_cases ho : k = other
      · subst ho
        simp [put, get?_cons, hk, Ne.symm hk]
      · simp [put, get?_cons, hk, ho, ih]

@[simp] theorem get?_put_self (key : String) (value : α) (entries : Entries α) :
    get? (put key value entries) key = some value := by simp [get?_put]

theorem get?_put_of_ne {key other : String} (h : key ≠ other) (value : α) (entries : Entries α) :
    get? (put key value entries) other = get? entries other := by simp [get?_put, h]

/-- Giving many keys their values changes no other look-up. -/
theorem get?_putAll_of_notMem {additions : Entries α} {key : String} (h : key ∉ keys additions)
    (entries : Entries α) : get? (putAll entries additions) key = get? entries key := by
  induction additions generalizing entries with
  | nil => rfl
  | cons addition rest ih =>
    obtain ⟨hkey, hrest⟩ := not_or.1 (fun hmem => h (List.mem_cons.2 hmem))
    rw [putAll, List.foldl_cons, ← putAll, ih hrest, get?_put_of_ne (Ne.symm hkey)]

/-- Keys that differ from each other all get their values. -/
theorem get?_putAll {additions : Entries α} (h : (keys additions).Nodup) (entries : Entries α)
    (key : String) :
    get? (putAll entries additions) key = (get? additions key).or (get? entries key) := by
  induction additions generalizing entries with
  | nil => simp [putAll]
  | cons addition rest ih =>
    obtain ⟨k, v⟩ := addition
    obtain ⟨hk, hrest⟩ := List.nodup_cons.1 h
    rw [putAll, List.foldl_cons, ← putAll, ih hrest, get?_put, get?_cons]
    by_cases heq : k = key
    · subst heq
      simp [get?_eq_none_iff.2 hk]
    · simp [heq]

/-- A look-up finds one of the added values or what it found before. -/
theorem get?_putAll_cases (additions entries : Entries α) (key : String) :
    get? (putAll entries additions) key = get? entries key ∨
      ∃ value, (key, value) ∈ additions ∧ get? (putAll entries additions) key = some value := by
  induction additions generalizing entries with
  | nil => exact Or.inl rfl
  | cons addition rest ih =>
    obtain ⟨k, v⟩ := addition
    rw [putAll, List.foldl_cons, ← putAll]
    rcases ih (put k v entries) with hsame | ⟨value, hvalue, hget⟩
    · by_cases heq : k = key
      · subst heq
        rw [get?_put_self] at hsame
        exact Or.inr ⟨v, List.mem_cons_self, hsame⟩
      · rw [get?_put_of_ne heq] at hsame
        exact Or.inl hsame
    · exact Or.inr ⟨value, List.mem_cons_of_mem _ hvalue, hget⟩

/-- Keys keep their order; a new one comes last. -/
theorem keys_put (key : String) (value : α) (entries : Entries α) :
    keys (put key value entries) =
      if key ∈ keys entries then keys entries else keys entries ++ [key] := by
  induction entries with
  | nil => simp [put, keys]
  | cons entry rest ih =>
    obtain ⟨k, v⟩ := entry
    by_cases hk : k = key
    · subst hk
      simp [put, keys]
    · simp only [keys, List.map_cons] at ih ⊢
      by_cases hm : key ∈ List.map Prod.fst rest <;>
        simp [put, hk, hm, Ne.symm hk, ih]

/-- Of two values for one key the later one counts. -/
@[simp] theorem put_put (key : String) (value next : α) (entries : Entries α) :
    put key next (put key value entries) = put key next entries := by
  induction entries with
  | nil => simp [put]
  | cons entry rest ih =>
    obtain ⟨k, v⟩ := entry
    by_cases hk : k = key <;> simp [put, hk, ih]

theorem put_of_notMem {key : String} {entries : Entries α} (h : key ∉ keys entries) (value : α) :
    put key value entries = entries ++ [(key, value)] := by
  induction entries with
  | nil => rfl
  | cons entry rest ih =>
    obtain ⟨k, v⟩ := entry
    obtain ⟨hk, hrest⟩ := not_or.1 (fun hmem => h (List.mem_cons.2 hmem))
    rw [put, if_neg (Ne.symm hk), ih hrest, List.cons_append]

theorem of_mem_put {key : String} {value : α} {entries : Entries α} {entry : String × α}
    (h : entry ∈ put key value entries) : entry = (key, value) ∨ entry ∈ entries := by
  induction entries with
  | nil => exact .inl (List.mem_singleton.1 h)
  | cons first rest ih =>
    obtain ⟨k, v⟩ := first
    by_cases hk : k = key
    · rw [put, if_pos hk] at h
      rcases List.mem_cons.1 h with rfl | hrest
      · exact .inl (by rw [hk])
      · exact .inr (List.mem_cons_of_mem _ hrest)
    · rw [put, if_neg hk] at h
      rcases List.mem_cons.1 h with rfl | hrest
      · exact .inr List.mem_cons_self
      · exact (ih hrest).imp_right (List.mem_cons_of_mem _)

end Entries

end TableApi
