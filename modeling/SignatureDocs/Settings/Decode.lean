import SignatureDocs.Settings.Basic
import SignatureDocs.Settings.Layer

/-!
From layers to settings. Fields are looked at in the order of their keys, keys that mean nothing are passed
over, and the first value that does not fit is reported with its key and its origin. A section may also be
given as a list of its fields.
-/
namespace SignatureDocs

open SignatureDocs.Text

/-- What a value should be. -/
inductive Wanted where
  | word32
  | word64
  | text
  | path
  | model
  | nothing
  | renderSection
  | providerSection (p : Provider)
deriving DecidableEq, Repr

/-- How a message names what a value should be. -/
def Wanted.describe : Wanted → String
  | word32 => "u32"
  | word64 => "u64"
  | text => "a string"
  | path => "path string"
  | model => "enum AiModel"
  | nothing => "unit"
  | renderSection => "struct RenderConfig"
  | providerSection .openAi => "struct OpenAiConfig"
  | providerSection .anthropic => "struct AnthropicConfig"

/-- Why a value does not fit. -/
inductive Misfit where
  | invalidType (found : String) (wanted : Wanted)
  | invalidValue (found : String) (wanted : Wanted)
  | unknownVariant (found : String)
deriving DecidableEq, Repr

def Misfit.message : Misfit → String
  | invalidType found wanted => "invalid type: found " ++ found ++ ", expected " ++ wanted.describe
  | invalidValue found wanted => "invalid value " ++ found ++ ", expected " ++ wanted.describe
  | unknownVariant found =>
    "unknown variant: found `" ++ found ++ "`, expected `one of " ++
      String.intercalate ", " (Model.all.map fun m => "`" ++ m.name ++ "`") ++ "`"

/-- A value that does not fit, with its key and its origin. -/
structure SettingFault where
  misfit : Misfit
  path : List String
  origin : Origin
deriving DecidableEq, Repr

namespace SettingFault

/-- The fault seen from the table or list around it. -/
def under (key : String) (f : SettingFault) : SettingFault := { f with path := key :: f.path }

/-- The keys that lead to the value. -/
def key (f : SettingFault) : String := String.intercalate "." f.path

/-- Where the value was given, in words. Keys of variables are in capitals, those of files are below the name
of the profile. -/
def place (f : SettingFault) : String :=
  match f.origin with
  | .builtIn => ""
  | .file shown => " for key " ++ quote ("default." ++ f.key) ++ " in " ++ shown ++ " TOML file"
  | .bareVariable => " for key " ++ quote (asciiUpper f.key) ++ " in environment variable(s)"
  | .prefixedVariable =>
    " for key " ++ quote (asciiUpper f.key) ++ " in `" ++ variableStart ++ "` environment variable(s)"

def message (f : SettingFault) : String := f.misfit.message ++ f.place

end SettingFault

namespace Setting

/-- The value of a setting without the origins. Tables are not looked into. -/
def shape : Setting → Value
  | given _ v => v
  | table _ _ => .table []

/-- A setting of the wrong kind. -/
def refuse {α : Type} (s : Setting) (wanted : Wanted) : Except SettingFault α :=
  .error ⟨.invalidType s.shape.describe wanted, [], s.origin⟩

/-- A whole number below a bound. -/
def decodeNat (bound : Nat) (wanted : Wanted) (s : Setting) : Except SettingFault Nat :=
  let outside : Except SettingFault Nat :=
    .error ⟨.invalidValue s.shape.describe wanted, [], s.origin⟩
  match s with
  | given _ (.unsigned n) => if n < bound then .ok n else outside
  | given _ (.signed n) => if 0 ≤ n && n < bound then .ok n.toNat else outside
  | s => s.refuse wanted

/-- A text; a character counts as one. -/
def decodeText (wanted : Wanted) (s : Setting) : Except SettingFault String :=
  match s with
  | given _ (.text t) => .ok t
  | given _ (.char c) => .ok (String.ofList [c])
  | s => s.refuse wanted

/-- A model by its name. A table stands for the model that its first key names, but then nothing may be given
under that key, which cannot be written. -/
def decodeModel (s : Setting) : Except SettingFault Model :=
  match s with
  | given o (.text t) =>
    match Model.ofName? t with
    | some m => .ok m
    | none => .error ⟨.unknownVariant t, [], o⟩
  | table o ((k, inner) :: _) =>
    match Model.ofName? k with
    | some _ => .error ⟨.invalidType inner.shape.describe .nothing, [k], inner.origin⟩
    | none => .error ⟨.unknownVariant k, [k], o⟩
  | s => s.refuse .model

end Setting

/-- A section of settings: how each field changes it, and the order of the fields in a list. -/
structure SectionForm (α : Type) where
  wanted : Wanted
  fieldNames : List String
  initial : α
  set : α → String → Setting → Except SettingFault α

namespace SectionForm

variable {α : Type}

/-- Takes in one field after another, each with the key under which it is reported. -/
def collect (f : SectionForm α) : α → List (String × String × Setting) → Except SettingFault α
  | a, [] => .ok a
  | a, (shown, name, s) :: rest =>
    match f.set a name s with
    | .ok a' => collect f a' rest
    | .error e => .error (e.under shown)

/-- A section from a table, or from a list of its fields. -/
def decode (f : SectionForm α) (s : Setting) : Except SettingFault α :=
  match s with
  | .table _ fields => f.collect f.initial (fields.map fun (k, s) => (k, k, s))
  | .given o (.array items) =>
    let positions := (List.range items.length).map toString
    f.collect f.initial (positions.zip (f.fieldNames.zip (items.map (Setting.ofValue o))))
  | s => s.refuse f.wanted

end SectionForm

/-- The section on documentation. -/
def renderForm : SectionForm RenderSettings where
  wanted := .renderSection
  fieldNames := ["model", "output_dir", "example_path", "max_tokens", "timeout_secs"]
  initial := {}
  set r name s :=
    match name with
    | "model" => s.decodeModel.map fun m => { r with model := m }
    | "output_dir" => (s.decodeText .path).map fun p => { r with outputDir := p }
    | "example_path" => (s.decodeText .path).map fun p => { r with samplePath := some p }
    | "max_tokens" => (s.decodeNat (Nat.pow 2 32) .word32).map fun n => { r with maxTokens := UInt32.ofNat n }
    | "timeout_secs" =>
      (s.decodeNat (Nat.pow 2 64) .word64).map fun n => { r with timeoutSecs := UInt64.ofNat n }
    | _ => .ok r

/-- The section on a provider. -/
def providerForm (p : Provider) : SectionForm ProviderSettings where
  wanted := .providerSection p
  fieldNames := ["api_key", "base_url"]
  initial := p.defaults
  set r name s :=
    match name with
    | "api_key" => (s.decodeText .text).map fun t => { r with apiKey := t }
    | "base_url" => (s.decodeText .text).map fun t => { r with baseUrl := t }
    | _ => .ok r

/-- All settings. -/
def settingsForm : SectionForm Settings where
  wanted := .nothing
  fieldNames := []
  initial := {}
  set r name s :=
    match name with
    | "render" => (renderForm.decode s).map fun x => { r with render := x }
    | "openai" => ((providerForm .openAi).decode s).map fun x => { r with openAi := x }
    | "anthropic" => ((providerForm .anthropic).decode s).map fun x => { r with anthropic := x }
    | _ => .ok r

/-- The settings of a layer. -/
def Settings.ofLayer (l : Layer) : Except SettingFault Settings :=
  settingsForm.collect {} (l.map fun (k, s) => (k, k, s))

end SignatureDocs
