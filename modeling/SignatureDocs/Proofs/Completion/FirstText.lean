import Mathlib
import SignatureDocs.Completion.Client

/-!
The text of a completion. An answer offers any number of texts: the contents of its alternatives, or the texts of those
of its blocks that are text. Only the first offer counts. If that one is missing or empty, the completion counts as
empty, even where a later offer has text.
-/
namespace SignatureDocs

open SignatureDocs.Text

/-- The text of an offer, unless it is missing or empty. -/
def written? (offer : Option (List Char)) : Option String :=
  (offer.filter (!·.isEmpty)).map String.ofList

theorem written?_eq_some {offer : Option (List Char)} {s : String} :
    written? offer = some s ↔ offer = some s.toList ∧ s ≠ "" := by
  rw [written?, Option.map_eq_some_iff]
  constructor
  · rintro ⟨cs, hcs, rfl⟩
    obtain ⟨hoffer, hne⟩ := Option.filter_eq_some_iff.mp hcs
    rw [String.toList_ofList]
    refine ⟨hoffer, ?_⟩
    intro hempty
    have hnil : cs = [] := by simpa using congrArg String.toList hempty
    simp [hnil] at hne
  · rintro ⟨rfl, hne⟩
    have hchars : s.toList ≠ [] := by simpa using hne
    refine ⟨s.toList, ?_, String.ofList_toList⟩
    simp [hchars]

namespace Client

/-- What an answer offers for the text, in its order. -/
def offers? (c : Client) (v : Json) : Option (List (Option (List Char))) :=
  match c.provider with
  | .openAi => (ChatChoice.listOfJson? v).map fun choices => choices.map ChatChoice.content
  | .anthropic =>
    (ContentBlock.listOfJson? v).map fun blocks =>
      (blocks.filter (·.kind = "text".toList)).map ContentBlock.text

/-- The completion of a model for a text that was found or not. -/
def outcome (m : Model) (text : Option String) : Except CompletionFault String :=
  (text.map Except.ok).getD (.error (.empty m))

theorem outcome_eq_error {m : Model} {text : Option String} : outcome m text = .error (.empty m) ↔ text = none := by
  cases text <;> simp [outcome]

theorem outcome_eq_ok {m : Model} {text : Option String} {s : String} : outcome m text = .ok s ↔ text = some s := by
  cases text <;> simp [outcome]

theorem outcome_inj {m : Model} {text text' : Option String} : outcome m text = outcome m text' ↔ text = text' := by
  cases text' with
  | none => exact outcome_eq_error
  | some s => exact outcome_eq_ok

theorem chatText_eq (choices : List ChatChoice) :
    (chatText choices).map String.ofList = (choices.map ChatChoice.content).head?.bind written? := by
  cases choices <;> rfl

theorem messageText_eq (blocks : List ContentBlock) :
    (messageText blocks).map String.ofList =
      ((blocks.filter (·.kind = "text".toList)).map ContentBlock.text).head?.bind written? := by
  rw [messageText, List.head?_map, List.head?_filter]
  cases blocks.find? (·.kind = "text".toList) <;> rfl

/-- A reply that is accepted and has the right form is known by its first offer. -/
theorem receive_eq_outcome {c : Client} {response : Response} {offers : List (Option (List Char))}
    (hstatus : 200 ≤ response.status ∧ response.status < 300)
    (hoffers : (Json.parse? (decode response.body)).bind c.offers? = some offers) (m : Model) (url : Url) :
    c.receive m url response = outcome m (offers.head?.bind written?) := by
  obtain ⟨v, hv, hlist⟩ := Option.bind_eq_some_iff.mp hoffers
  have haccepted : (decide (200 ≤ response.status) && decide (response.status < 300)) = true := by
    simp [hstatus.1, hstatus.2]
  rw [receive, if_pos haccepted]
  unfold offers? at hlist
  cases hprovider : c.provider with
  | openAi =>
    simp only [hprovider] at hlist
    obtain ⟨choices, hchoices, rfl⟩ := Option.map_eq_some_iff.mp hlist
    simp only [hv, Option.bind_some, hchoices, Option.map_some, ← chatText_eq]
    cases chatText choices <;> rfl
  | anthropic =>
    simp only [hprovider] at hlist
    obtain ⟨blocks, hblocks, rfl⟩ := Option.map_eq_some_iff.mp hlist
    simp only [hv, Option.bind_some, hblocks, Option.map_some, ← messageText_eq]
    cases messageText blocks <;> rfl

theorem complete_eq_receive {c : Client} {e : Exchange} {m : Model} {prompt : String} {r : Request}
    {response : Response} (hrequest : c.request m prompt = .ok r)
    (hanswer : e.answer e.sent.length = some response) :
    (c.complete e m prompt).2 = c.receive m r.url response := by
  simp only [complete, hrequest, Exchange.send, hanswer]

end Client

/-- The first offer is the first that has text, unless some offer has text and the first has not. -/
theorem head?_bind_written?_eq {offers : List (Option (List Char))} :
    offers.head?.bind written? = offers.findSome? written? ↔
      ∀ first rest, offers = first :: rest → written? first = none → ∀ o ∈ rest, written? o = none := by
  cases offers with
  | nil => simp
  | cons first rest =>
    rw [List.head?_cons, Option.bind_some, List.findSome?_cons]
    cases hfirst : written? first with
    | some s =>
      simp only [true_iff]
      rintro _ _ ⟨⟩ hnone
      rw [hfirst] at hnone
      cases hnone
    | none =>
      rw [eq_comm, List.findSome?_eq_none_iff]
      constructor
      · rintro hrest _ _ ⟨⟩ -
        exact hrest
      · intro h
        exact h first rest rfl hfirst

/-- Of an answer that is accepted and has the right form, the completion is the text of the first offer, and it counts
as empty if and only if the first offer has no text. This is the first text of all offers if and only if no offer with
text comes after a first one without. -/
theorem Client.complete_first_offer {c : Client} {e : Exchange} {m : Model} {prompt : String} {r : Request}
    {response : Response} {offers : List (Option (List Char))} (hrequest : c.request m prompt = .ok r)
    (hanswer : e.answer e.sent.length = some response)
    (hstatus : 200 ≤ response.status ∧ response.status < 300)
    (hoffers : (Json.parse? (decode response.body)).bind c.offers? = some offers) :
    ((c.complete e m prompt).2 = .error (.empty m) ↔ ∀ o ∈ offers.head?, written? o = none) ∧
    (∀ s, (c.complete e m prompt).2 = .ok s ↔ s ≠ "" ∧ offers.head? = some (some s.toList)) ∧
    ((c.complete e m prompt).2 = Client.outcome m (offers.findSome? written?) ↔
      ∀ first rest, offers = first :: rest → written? first = none → ∀ o ∈ rest, written? o = none) := by
  have hcomplete : (c.complete e m prompt).2 = Client.outcome m (offers.head?.bind written?) :=
    (Client.complete_eq_receive hrequest hanswer).trans (Client.receive_eq_outcome hstatus hoffers m r.url)
  rw [hcomplete]
  refine ⟨?_, ?_, ?_⟩
  · rw [Client.outcome_eq_error, Option.bind_eq_none_iff]
    rfl
  · intro s
    rw [Client.outcome_eq_ok, Option.bind_eq_some_iff]
    constructor
    · rintro ⟨o, ho, hs⟩
      obtain ⟨rfl, hne⟩ := written?_eq_some.mp hs
      exact ⟨hne, ho⟩
    · rintro ⟨hne, ho⟩
      exact ⟨some s.toList, ho, written?_eq_some.mpr ⟨rfl, hne⟩⟩
  · rw [Client.outcome_inj]
    exact head?_bind_written?_eq

/-- A conversation in which every request gets the same answer. -/
def Exchange.ofBody (body : String) : Exchange := ⟨fun _ => some ⟨200, encode body.toList⟩, []⟩

/-- A block of another kind comes first, then one with text and one without. -/
theorem Client.complete_first_offer_kill :
    let c : Client := ⟨.anthropic, "k", "http://h", 5⟩
    let e := Exchange.ofBody
      "\x7b\"content\":[\x7b\"type\":\"tool_use\"\x7d,\x7b\"type\":\"text\",\"text\":\"## Kill\"\x7d,[\"text\"]]\x7d"
    (c.complete e .claude "p").2 = .ok "## Kill" ∧
      (c.complete e .claude "p").2 = Client.outcome .claude ([some "## Kill".toList, none].findSome? written?) := by
  intro c e
  obtain ⟨r, hr⟩ : ∃ r, c.request .claude "p" = .ok r := by
    have hok : (c.request .claude "p").isOk = true := by decide +kernel
    revert hok
    cases c.request .claude "p" with
    | error f => rintro ⟨⟩
    | ok r => exact fun _ => ⟨r, rfl⟩
  have hanswer : e.answer e.sent.length = e.answer 0 := rfl
  obtain ⟨-, htext, hfirst⟩ := @Client.complete_first_offer c e .claude "p" r _ [some "## Kill".toList, none] hr hanswer
    (by decide) (by decide +kernel)
  refine ⟨(htext _).mpr ⟨by decide, rfl⟩, hfirst.mpr ?_⟩
  rintro _ _ ⟨⟩ hnone
  exact absurd hnone (by decide)

/-- A first offer without text makes the completion empty for both providers, though the second offer has text. -/
theorem Client.complete_later_offer :
    let openAi : Client := ⟨.openAi, "k", "http://h", 5⟩
    let anthropic : Client := ⟨.anthropic, "k", "http://h", 5⟩
    let chat := Exchange.ofBody
      "\x7b\"choices\":[\x7b\"message\":\x7b\"content\":null\x7d\x7d,\x7b\"message\":\x7b\"content\":\"later\"\x7d\x7d]\x7d"
    let message := Exchange.ofBody
      "\x7b\"content\":[\x7b\"type\":\"text\",\"text\":\"\"\x7d,\x7b\"type\":\"text\",\"text\":\"later\"\x7d]\x7d"
    (openAi.complete chat .gpt3 "p").2 = .error (.empty .gpt3) ∧
      (anthropic.complete message .claude "p").2 = .error (.empty .claude) ∧
      written? (some "later".toList) = some "later" := by
  intro openAi anthropic chat message
  exact ⟨by decide +kernel, by decide +kernel, by decide⟩

end SignatureDocs
