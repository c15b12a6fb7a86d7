import SignatureDocs.Json.Reader
import SignatureDocs.Text.Utf8

/-!
What the providers answer. Of an answer only a few fields are looked at: they may not be given twice and have to
be of the right kind, and all other fields are passed over. An object may also be given as the list of its
fields.
-/
namespace SignatureDocs

open SignatureDocs.Text

namespace Json

/-- The values of a field, by its name. -/
def valuesOf (name : String) (fields : List (Option (List Char) × Json)) : List Json :=
  (fields.filter fun (k, _) => k = some name.toList).map Prod.snd

/-- The value of a field that may be missing. Nothing is right if it is given twice or if the name of a field
spells no text. -/
def field? (name : String) (fields : List (Option (List Char) × Json)) : Option (Option Json) :=
  if fields.any fun (k, _) => k.isNone then none
  else
    match valuesOf name fields with
    | [] => some none
    | [v] => some (some v)
    | _ => none

/-- A text. -/
def text? : Json → Option (List Char)
  | string s => s
  | _ => none

/-- A text that may be null. -/
def optionalText? : Json → Option (Option (List Char))
  | null => some none
  | v => v.text?.map some

/-- A list of things of one kind. -/
def listOf? {α : Type} (f : Json → Option α) : Json → Option (List α)
  | array items => items.mapM f
  | _ => none

end Json

/-- One of the alternatives that a chat completion offers: the content of its message, if there is any. -/
structure ChatChoice where
  content : Option (List Char)
deriving DecidableEq, Repr

/-- A block of a message: its kind, and its text if there is any. -/
structure ContentBlock where
  kind : List Char
  text : Option (List Char)
deriving DecidableEq, Repr

namespace ChatChoice

/-- The content of a message. -/
def ofMessage? : Json → Option ChatChoice
  | .object fields =>
    (Json.field? "content" fields).bind fun v =>
      match v with
      | none => some ⟨none⟩
      | some c => c.optionalText?.map ChatChoice.mk
  | .array [c] => c.optionalText?.map ChatChoice.mk
  | _ => none

/-- An alternative. -/
def ofJson? : Json → Option ChatChoice
  | .object fields => (Json.field? "message" fields).bind fun v => v.bind ofMessage?
  | .array [m] => ofMessage? m
  | _ => none

/-- All alternatives of an answer. -/
def listOfJson? : Json → Option (List ChatChoice)
  | .object fields => (Json.field? "choices" fields).bind fun v => v.bind (Json.listOf? ofJson?)
  | .array [cs] => Json.listOf? ofJson? cs
  | _ => none

end ChatChoice

namespace ContentBlock

/-- A block. -/
def ofJson? : Json → Option ContentBlock
  | .object fields =>
    (Json.field? "type" fields).bind fun kind =>
      (Json.field? "text" fields).bind fun text =>
        (kind.bind Json.text?).bind fun k =>
          match text with
          | none => some ⟨k, none⟩
          | some t => t.optionalText?.map (ContentBlock.mk k)
  | .array [kind] => kind.text?.map fun k => ⟨k, none⟩
  | .array [kind, text] => kind.text?.bind fun k => text.optionalText?.map (ContentBlock.mk k)
  | _ => none

/-- All blocks of an answer. -/
def listOfJson? : Json → Option (List ContentBlock)
  | .object fields => (Json.field? "content" fields).bind fun v => v.bind (Json.listOf? ofJson?)
  | .array [bs] => Json.listOf? ofJson? bs
  | _ => none

end ContentBlock

/-- The text of a chat completion: that of the first alternative, unless it is empty. -/
def chatText (choices : List ChatChoice) : Option (List Char) :=
  (choices.head?.bind ChatChoice.content).filter (!·.isEmpty)

/-- The text of a message: that of the first text block, unless it is empty. -/
def messageText (blocks : List ContentBlock) : Option (List Char) :=
  ((blocks.find? (·.kind = "text".toList)).bind ContentBlock.text).filter (!·.isEmpty)

end SignatureDocs
