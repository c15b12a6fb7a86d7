import SignatureDocs.Program.Command
import SignatureDocs.Proofs.Json.RoundTrip

/-!
What the program prints for methods is a faithful record of them: whoever reads the text gets the same methods back,
whichever layout was asked for.
-/
namespace SignatureDocs

open SignatureDocs.Text

/-- A text of a record, by the name of its field. It has to be there. -/
def Json.textOf? (name : String) (fields : List (Option (List Char) × Json)) : Option String :=
  (Json.field? name fields).bind fun v => (v.bind Json.text?).map String.ofList

/-- The method that a record is about: an object with all four texts, in any order. -/
def Method.ofJson? : Json → Option Method
  | .object fields => do
    let declarationName ← Json.textOf? "declaration_name" fields
    let methodName ← Json.textOf? "method_name" fields
    let signature ← Json.textOf? "signature_text" fields
    let comment ← Json.textOf? "comment_text" fields
    return { declarationName, methodName, signature, comment }
  | _ => none

/-- The value in a printed text. -/
def readPrinted? (s : String) : Option Json := Json.parse? (s.toList.map some)

/-- The methods in a printed text. -/
def Method.listOfPrinted? (s : String) : Option (List Method) :=
  (readPrinted? s).bind (Json.listOf? Method.ofJson?)

theorem Json.Textual.ofString (s : String) : (Json.ofString s).Textual := .string s.toList

theorem Json.Textual.record {fields : List (String × Json)} (h : ∀ f ∈ fields, f.2.Textual) :
    (Json.record fields).Textual := by
  apply Json.Textual.object
  · intro f hf
    obtain ⟨g, -, rfl⟩ := List.mem_map.1 hf
    rfl
  · intro f hf
    obtain ⟨g, hg, rfl⟩ := List.mem_map.1 hf
    exact h g hg

theorem Method.textual_toJson (m : Method) : m.toJson.Textual := by
  apply Json.Textual.record
  intro f hf
  simp only [List.mem_cons, List.not_mem_nil, or_false] at hf
  rcases hf with rfl | rfl | rfl | rfl <;> exact .ofString _

theorem Method.textual_list (ms : List Method) : (Json.array (ms.map Method.toJson)).Textual := by
  apply Json.Textual.array
  intro v hv
  obtain ⟨m, -, rfl⟩ := List.mem_map.1 hv
  exact m.textual_toJson

/-- The four texts of a record are told apart by their names. -/
theorem Method.ofJson?_toJson (m : Method) : Method.ofJson? m.toJson = some m := by
  simp [Method.toJson, Json.record, Method.ofJson?, Json.textOf?, Json.field?, Json.valuesOf, Json.ofString,
    Json.text?]

theorem Method.mapM_ofJson? (ms : List Method) : (ms.map Method.toJson).mapM Method.ofJson? = some ms := by
  induction ms with
  | nil => rfl
  | cons m ms ih => simp [Method.ofJson?_toJson, ih]

theorem readPrinted?_printed {v : Json} (h : v.Textual) (l : Json.Layout) : readPrinted? (printed l v) = some v := by
  rw [readPrinted?, printed, Json.text, String.toList_append, String.toList_ofList]
  apply Json.parse?_render h l
  intro c hc
  obtain rfl : c = '\n' := by simpa using hc
  rfl

/-- Printed methods are read back as they were, with all their texts, in either layout. In the layout of one line
only the end of the text is a line feed. The command prints the methods that it finds in this way. -/
theorem Method.printed_faithful :
    (∀ l (ms : List Method), readPrinted? (printed l (.array (ms.map Method.toJson))) = some (.array (ms.map Method.toJson)) ∧
      Method.listOfPrinted? (printed l (.array (ms.map Method.toJson))) = some ms) ∧
    (∀ ms : List Method, ∃ line, printed .compact (.array (ms.map Method.toJson)) = line ++ "\n" ∧ '\n' ∉ line.toList) ∧
    (∀ w o (t : Target), (runExtract w o t).result.map Method.listOfPrinted? = (t.extract w.files).map some) := by
  have hread : ∀ l (ms : List Method), readPrinted? (printed l (.array (ms.map Method.toJson))) =
      some (.array (ms.map Method.toJson)) := fun l ms => readPrinted?_printed (Method.textual_list ms) l
  have hmethods : ∀ l (ms : List Method), Method.listOfPrinted? (printed l (.array (ms.map Method.toJson))) = some ms := by
    intro l ms
    rw [Method.listOfPrinted?, hread, Option.bind_some, Json.listOf?, Method.mapM_ofJson?]
  refine ⟨fun l ms => ⟨hread l ms, hmethods l ms⟩, fun ms => ?_, fun w o t => ?_⟩
  · refine ⟨_, rfl, ?_⟩
    rw [Json.text, String.toList_ofList]
    exact (Method.textual_list ms).newline_not_mem 0
  · rw [runExtract, World.report]
    cases t.extract w.files with
    | error f => rfl
    | ok ms => exact congrArg Except.ok (hmethods o.format ms)

end SignatureDocs
