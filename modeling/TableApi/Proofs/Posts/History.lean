import Mathlib.Data.List.Basic
import TableApi.Proofs.Resource.Address
import TableApi.Proofs.Resource.Payload
import TableApi.Proofs.Resource.Run

/-! What a history of requests tells about posts: which of them are alive, and which texts they
have. A post lives from the creation that returned its number until it is destroyed, and a field of
it has the text that was last named for it. -/

namespace TableApi.Posts

open Resource

def textFields : List String := ["title", "content", "status"]

/-- A payload as JSON gives it, whose keys differ, with texts for the fields that hold texts. -/
def Textual (payload : Value) : Prop :=
  (namedFields payload).Nodup ∧
    ∀ entries, payload = .map entries → ∀ field ∈ textFields, ∀ v,
      Entries.get? entries field = some v → ∃ s, v = .text s

theorem textual_of_texts {entries : Entries Value} (hkeys : (Entries.keys entries).Nodup)
    (htexts : ∀ entry ∈ entries, ∃ s, entry.2 = .text s) : Textual (.map entries) := by
  refine ⟨hkeys, ?_⟩
  intro others hothers field _ v hv
  cases hothers
  exact htexts _ (Entries.mem_of_get?_eq_some hv)

/-- The text that a payload names for a field. -/
def textNamed? (payload : Value) (field : String) : Option String :=
  match payload with
  | .map entries =>
    match Entries.get? entries field with
    | some (.text s) => some s
    | _ => none
  | _ => none

/-- What a request did to the posts: it created, changed or destroyed the one with a number, or did
nothing to them. -/
inductive Effect where
  | created (i : Int)
  | changed (i : Int)
  | destroyed (i : Int)
  | nothing
  deriving DecidableEq

/-- The effect of an event. A creation tells the number of its post, and a change or a destruction
that succeeds is that of the post at its address. -/
def effect (e : Event) : Effect :=
  match e.request, e.result with
  | .write (.create _), .ok (some answer) =>
    match Entries.get? answer "id" with
    | some (.int i) => .created i
    | _ => .nothing
  | .write (.update address _), .ok _ => (idOf? address).elim .nothing .changed
  | .write (.destroy address), .ok _ => (idOf? address).elim .nothing .destroyed
  | _, _ => .nothing

/-- A post is only changed by a change of it that succeeds. -/
theorem of_effect_eq_changed {request : Request}
    {result : Except ServiceError (Option (Entries Value))} {i : Int}
    (h : effect ⟨request, result⟩ = .changed i) :
    ∃ address payload answer, request = .write (.update address payload) ∧
      idOf? address = some i ∧ result = .ok answer := by
  unfold effect at h
  split at h
  · split at h <;> cases h
  · next address payload answer hrequest hresult =>
    cases haddress : idOf? address with
    | none => simp [haddress] at h
    | some j =>
      obtain rfl : j = i := by simpa [haddress] using h
      exact ⟨address, payload, answer, hrequest, haddress, hresult⟩
  · next address _ _ _ => cases haddress : idOf? address <;> simp [haddress] at h
  · cases h

/-- The text that an event names for a field. -/
def named? (field : String) (e : Event) : Option String :=
  match e.request with
  | .write (.create payload) | .write (.update _ payload) => textNamed? payload field
  | _ => none

/-- A post is alive, and `since` are the events of its life: they begin with its creation, and none
of them destroyed it. -/
def LiveSince (events : List Event) (i : Int) (since : List Event) : Prop :=
  ∃ front e back, events = front ++ since ∧ since = e :: back ∧ effect e = .created i ∧
    ∀ later ∈ back, effect later ≠ .destroyed i

def writes (i : Int) (e : Event) : Bool :=
  effect e = .created i ∨ effect e = .changed i

/-- The text of a field that was last named for a post. -/
def lastNamed? (field : String) (i : Int) (events : List Event) : Option String :=
  events.reverse.findSome? fun e => if writes i e then named? field e else none

/-- The text of a field of a post: the last one that was named, and for a status that was never
named `draft`. -/
def textOf? (field : String) (i : Int) (since : List Event) : Option String :=
  (lastNamed? field i since).or (if field = "status" then some "draft" else none)

/-! ### One more event -/

variable {events since : List Event} {e : Event} {i : Int} {field : String}

theorem not_liveSince_nil : ¬ LiveSince [] i since := by
  rintro ⟨front, e, back, happend, rfl, -⟩
  simp at happend

theorem liveSince_concat_of_created (h : effect e = .created i) : LiveSince (events ++ [e]) i [e] :=
  ⟨events, e, [], rfl, rfl, h, fun _ hlater => absurd hlater List.not_mem_nil⟩

theorem LiveSince.concat (h : LiveSince events i since) (he : effect e ≠ .destroyed i) :
    LiveSince (events ++ [e]) i (since ++ [e]) := by
  obtain ⟨front, first, back, rfl, rfl, hcreated, hback⟩ := h
  refine ⟨front, first, back ++ [e], by simp, rfl, hcreated, ?_⟩
  intro later hlater
  rcases List.mem_append.1 hlater with hback' | hlast
  · exact hback later hback'
  · rw [List.mem_singleton.1 hlast]
    exact he

/-- A post that is alive behind an event was created by it or was alive before and not destroyed. -/
theorem liveSince_concat_iff : LiveSince (events ++ [e]) i since ↔
    effect e = .created i ∧ since = [e] ∨
      ∃ before, LiveSince events i before ∧ since = before ++ [e] ∧ effect e ≠ .destroyed i := by
  constructor
  · rintro ⟨front, first, back, happend, rfl, hcreated, hback⟩
    rcases List.eq_nil_or_concat back with rfl | ⟨middle, last, rfl⟩
    · obtain ⟨-, hlast⟩ := List.append_inj' happend rfl
      obtain rfl : e = first := by simpa using hlast
      exact .inl ⟨hcreated, rfl⟩
    · rw [List.concat_eq_append] at happend hback
      have hsplit : events ++ [e] = (front ++ first :: middle) ++ [last] := by simpa using happend
      obtain ⟨hevents, hlast⟩ := List.append_inj' hsplit rfl
      obtain rfl : e = last := by simpa using hlast
      refine .inr ⟨first :: middle, ⟨front, first, middle, hevents, rfl, hcreated, ?_⟩, by simp,
        hback e (by simp)⟩
      exact fun later hlater => hback later (List.mem_append_left _ hlater)
  · rintro (⟨hcreated, rfl⟩ | ⟨before, hbefore, rfl, hlast⟩)
    · exact liveSince_concat_of_created hcreated
    · exact hbefore.concat hlast

theorem lastNamed?_concat (field : String) (i : Int) (events : List Event) (e : Event) :
    lastNamed? field i (events ++ [e]) =
      (if writes i e then named? field e else none).or (lastNamed? field i events) := by
  unfold lastNamed?
  rw [List.reverse_concat, List.findSome?_cons]
  cases (if writes i e then named? field e else none) <;> rfl

theorem textOf?_concat_of_not_writes (h : writes i e = false) (field : String)
    (since : List Event) : textOf? field i (since ++ [e]) = textOf? field i since := by
  rw [textOf?, lastNamed?_concat, h]
  rfl

theorem textOf?_concat_of_writes (h : writes i e = true) (field : String) (since : List Event) :
    textOf? field i (since ++ [e]) = (named? field e).or (textOf? field i since) := by
  rw [textOf?, textOf?, lastNamed?_concat, if_pos h, Option.or_assoc]

theorem textOf?_singleton_of_writes (h : writes i e = true) (field : String) :
    textOf? field i [e] =
      (named? field e).or (if field = "status" then some "draft" else none) := by
  exact textOf?_concat_of_writes h field []

end TableApi.Posts
