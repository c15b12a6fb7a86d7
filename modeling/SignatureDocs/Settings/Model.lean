import SignatureDocs.Text.Blank

/-!
The completion models and their providers.
-/
namespace SignatureDocs

open SignatureDocs.Text

/-- Who answers prompts. -/
inductive Provider where
  | openAi
  | anthropic
deriving DecidableEq, Repr

/-- The section of the settings that is about a provider. -/
def Provider.sectionName : Provider → String
  | openAi => "openai"
  | anthropic => "anthropic"

/-- A completion model. -/
inductive Model where
  | gpt3
  | gpt4
  | claude
deriving DecidableEq, Repr

namespace Model

/-- The name of a model in settings and on the command line. -/
def name : Model → String
  | gpt3 => "gpt3"
  | gpt4 => "gpt4"
  | claude => "claude"

/-- The name by which a provider knows a model. -/
def providerName : Model → String
  | gpt3 => "gpt-3.5-turbo"
  | gpt4 => "gpt-4-turbo-preview"
  | claude => "claude-3-opus-20240229"

def provider : Model → Provider
  | gpt3 | gpt4 => .openAi
  | claude => .anthropic

def all : List Model := [gpt3, gpt4, claude]

/-- The model of a name. -/
def ofName? (s : String) : Option Model := all.find? (·.name = s)

/-- A name that no model has. -/
structure Unknown where
  value : String
deriving DecidableEq, Repr

def Unknown.message (u : Unknown) : String :=
  "unknown model '" ++ u.value ++ "' for render.model (expected gpt3, gpt4 or claude)"

/-- The model of a name with blanks around it. -/
def parse (s : String) : Except Unknown Model :=
  match ofName? (trimString s) with
  | some m => .ok m
  | none => .error ⟨trimString s⟩

end Model

end SignatureDocs
