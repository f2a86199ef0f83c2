import TableApi.Proofs.Options.Rules
import TableApi.Proofs.Posts.Map
import TableApi.Proofs.Uuid
import TableApi.Proofs.Web.Handling

/-! The marks of responses. Every response that a request gets of the application, whether it
answers or refuses, says that it must not be kept and bears a tag: that of the request when it is
well formed, and a fresh one otherwise. A request that fails in an unforeseen way is answered
outside of all this, and that response has no marks at all. -/

namespace TableApi.Web

open Text Number

/-! ### Tags -/

/-- A letter, a digit, a dot, an underscore or a hyphen. -/
def IsTagChar (c : Char) : Prop := ('A' ≤ c ∧ c ≤ 'Z') ∨ ('a' ≤ c ∧ c ≤ 'z') ∨
  ('0' ≤ c ∧ c ≤ '9') ∨ c = '.' ∨ c = '_' ∨ c = '-'

instance (c : Char) : Decidable (IsTagChar c) := inferInstanceAs (Decidable (_ ∨ _))

def IsTag (s : String) : Prop :=
  (1 ≤ s.toList.length ∧ s.toList.length ≤ 128) ∧ ∀ c ∈ s.toList, IsTagChar c

instance (s : String) : Decidable (IsTag s) :=
  @instDecidableAnd _ _ inferInstance (List.decidableBAll IsTagChar s.toList)

/-- The stripped text that a request sends as its tag, empty when it sends none. -/
def sentTag (request : Request) : String := strip ((request.header? "x-request-id").getD "")

theorem isTagChar_iff (c : Char) : isTagChar c = true ↔ IsTagChar c := by
  rw [IsTagChar, ← Options.isPlainDigit_iff, ← or_assoc, ← Options.isAlpha_iff]
  simp [isTagChar, or_assoc]

theorem isTag_ofList_iff (cs : List Char) : IsTag (String.ofList cs) ↔
    (!cs.isEmpty && cs.all isTagChar && decide (cs.length ≤ maxTagLength)) = true := by
  have hempty : (!cs.isEmpty) = true ↔ 1 ≤ cs.length := by cases cs <;> simp
  have hall : cs.all isTagChar = true ↔ ∀ c ∈ cs, IsTagChar c := by
    simp only [List.all_eq_true, isTagChar_iff]
  rw [IsTag, String.toList_ofList, Bool.and_eq_true, Bool.and_eq_true, hempty, hall,
    decide_eq_true_iff, and_right_comm]
  rfl

theorem tagOf_eq (request : Request) (fresh : String) :
    tagOf request fresh = if IsTag (sentTag request) then sentTag request else fresh := by
  have hkept : keptTag? (request.header? "x-request-id") =
      if IsTag (sentTag request) then some (sentTag request) else none :=
    if_congr (isTag_ofList_iff _).symm rfl rfl
  rw [tagOf, hkept]
  split <;> rfl

theorem isTag_plainText (id : Uuid) : IsTag id.plainText := by
  have hchars : id.plainText.toList = id.digits := String.toList_ofList
  have hlength : id.plainText.toList.length = 32 := by
    rw [hchars]
    exact length_hexDigits 32 _
  refine ⟨by omega, fun c hc => ?_⟩
  rw [← isTagChar_iff]
  rw [hchars] at hc
  exact (Uuid.isHexChar_of_mem_digits hc).of_forall (p := fun c => isTagChar c = true) (by decide)

/-! ### Responses -/

/-- The marks of a response to a request. Its tag is well formed, and it is what the request sends
exactly when that is well formed. -/
structure IsMarked (request : Request) (response : Response) : Prop where
  cacheControl : response.headers.get? "cache-control" = some "no-store"
  pragma : response.headers.get? "pragma" = some "no-cache"
  expires : response.headers.get? "expires" = some "0"
  contentType : response.headers.get? "x-content-type-options" = some "nosniff"
  tag : ∃ tag, response.headers.get? "x-request-id" = some tag ∧ IsTag tag ∧
    (tag = sentTag request ↔ IsTag (sentTag request))

variable {app : App} {now : Calendar.Moment} {request : Request} {state : State}

/-- A finished response has the marks, whatever headers it had. -/
theorem isMarked_finish (request : Request) (id : Uuid) (response : Response) :
    IsMarked request (finish request id.plainText response) := by
  have hnames : (Entries.keys
      (noStore ++ [("x-request-id", tagOf request id.plainText)])).Nodup := by
    have hkeys : Entries.keys (noStore ++ [("x-request-id", tagOf request id.plainText)]) =
        ["cache-control", "pragma", "expires", "x-content-type-options", "x-request-id"] := rfl
    rw [hkeys]
    decide
  have hget (name : String) : (finish request id.plainText response).headers.get? name =
      (Entries.get? (noStore ++ [("x-request-id", tagOf request id.plainText)]) name).or
        (response.headers.get? name) :=
    Entries.get?_putAll hnames _ _
  refine ⟨hget _, hget _, hget _, hget _, _, hget _, ?_⟩
  rw [tagOf_eq]
  split
  · next h => exact ⟨h, iff_of_true rfl h⟩
  · next h => exact ⟨isTag_plainText id, iff_of_false (fun heq => h (heq ▸ isTag_plainText id)) h⟩

theorem not_isMarked_plain (status : Nat) (s : String) : ¬ IsMarked request (.plain status s) := by
  intro h
  cases h.cacheControl

/-- The response to a request is finished, or the request failed and the response only says so. -/
theorem handle_cases (app : App) (now : Calendar.Moment) (fresh : String) (request : Request)
    (state : State) :
    ((app.handle now fresh request state).failure? = none ∧
      ∃ response, (app.handle now fresh request state).response = finish request fresh response) ∨
    ∃ failure, (app.dispatch now request state).reply = .error failure ∧
      (app.handle now fresh request state).failure? = some failure ∧
      (app.handle now fresh request state).response = .plain 500 "Internal Server Error" := by
  unfold App.handle
  dsimp only
  split
  · exact Or.inl ⟨rfl, _, rfl⟩
  · split
    · exact Or.inl ⟨rfl, _, rfl⟩
    · next failure h => exact Or.inr ⟨failure, h, rfl, rfl⟩

/-! ### Refusals -/

section Refusal

variable {r : Refusal}

theorem reply_ne_refused (status : Nat) (v : Value) :
    reply status v ≠ .error (.service (.refused r)) := by
  unfold reply
  split <;> exact nofun

theorem compliant_ne_refused (response : Response) :
    compliant response ≠ .error (.service (.refused r)) := by
  unfold compliant
  split
  · split <;> exact nofun
  · exact nofun

theorem replyTo_ne_refused {α : Type} {answer : α → Reply}
    (h : ∀ a, answer a ≠ .error (.service (.refused r))) (result : Except ServiceError α) :
    replyTo answer result ≠ .error (.service (.refused r)) := by
  unfold replyTo
  split
  · exact h _
  · exact nofun
  · next hrefused =>
    intro heq
    cases heq
    exact hrefused r rfl

/-- What a route refuses is answered, and so is a payload that cannot be read. -/
theorem follow_ne_refused (app : App) (now : Calendar.Moment) (request : Request) (state : State)
    (route : Route) :
    (app.follow now request state route).reply ≠ .error (.service (.refused r)) := by
  have hreply {status : Nat} (result : Except ServiceError (Entries Value)) :
      replyTo (fun entries => reply status (.map entries)) result ≠
        .error (.service (.refused r)) :=
    replyTo_ne_refused (fun _ => reply_ne_refused _ _) _
  have hnothing : (.ok (.bare 204 []) : Reply) ≠ .error (.service (.refused r)) := nofun
  cases route with
  | landing | health =>
    dsimp only [App.follow]
    exact reply_ne_refused _ _
  | index resource | show_ resource address =>
    dsimp only [App.follow]
    exact hreply _
  | create resource | update resource address =>
    dsimp only [App.follow]
    split
    · exact compliant_ne_refused _
    · exact hreply _
  | destroy resource address =>
    dsimp only [App.follow]
    exact replyTo_ne_refused (fun _ => hnothing) _

theorem dispatch_ne_refused (app : App) (now : Calendar.Moment) (request : Request)
    (state : State) :
    (app.dispatch now request state).reply ≠ .error (.service (.refused r)) := by
  unfold App.dispatch
  dsimp only
  split
  · split
    · exact follow_ne_refused app now request state _
    · exact nofun
  · split <;> exact nofun

end Refusal

/-! ### Exchanges -/

/-- A response has the marks exactly when its request did not fail in an unforeseen way, which a
refusal is not. Otherwise it says that it failed and nothing else. -/
theorem isMarked_iff_not_failed (app : App) (now : Calendar.Moment) (id : Uuid) (request : Request)
    (state : State) :
    let exchange := app.handle now id.plainText request state
    (IsMarked request exchange.response ↔ exchange.failure? = none) ∧
      ∀ failure, exchange.failure? = some failure →
        exchange.response = .plain 500 "Internal Server Error" ∧
          ∀ refusal, failure ≠ .service (.refused refusal) := by
  intro exchange
  rcases handle_cases app now id.plainText request state with
    ⟨hnone, response, hresponse⟩ | ⟨failure, hreply, hsome, hresponse⟩
  · have hmarked : IsMarked request exchange.response := hresponse ▸ isMarked_finish request id response
    refine ⟨iff_of_true hmarked hnone, fun failure hfailure => ?_⟩
    rw [hnone] at hfailure
    cases hfailure
  · have hbare : ¬ IsMarked request exchange.response := hresponse ▸ not_isMarked_plain _ _
    have hfailed : exchange.failure? ≠ none := hsome ▸ nofun
    refine ⟨iff_of_false hbare hfailed, fun other hother => ⟨hresponse, fun refusal heq => ?_⟩⟩
    obtain rfl := Option.some.inj (hsome.symm.trans hother)
    exact dispatch_ne_refused app now request state (heq ▸ hreply)

/-- A request for a post under a number that the store has no room for. -/
def wideAddress : Request := ⟨"GET", "/api/posts/9223372036854775808", "", [], ""⟩

/-- The response to it may be kept, and it has no tag. -/
theorem not_isMarked_wideAddress : ∃ registry, defaultRegistry = .ok registry ∧
    ¬ IsMarked wideAddress (App.handle ⟨.default, registry⟩ Resource.noon
      (Uuid.ofNat 1).plainText wideAddress Posts.noPosts).response := by
  have hfails : (defaultRegistry.toOption.map fun registry => (App.handle ⟨.default, registry⟩
      Resource.noon (Uuid.ofNat 1).plainText wideAddress Posts.noPosts).failure?.isSome) =
        some true := by decide +kernel
  obtain ⟨registry, hregistry, hfailed⟩ := exists_of_toOption_map hfails
  refine ⟨registry, hregistry, ?_⟩
  rcases handle_cases ⟨.default, registry⟩ Resource.noon (Uuid.ofNat 1).plainText wideAddress
    Posts.noPosts with ⟨hnone, -⟩ | ⟨-, -, -, hresponse⟩
  · rw [hnone] at hfailed
    cases hfailed
  · rw [hresponse]
    exact not_isMarked_plain _ _

end TableApi.Web
