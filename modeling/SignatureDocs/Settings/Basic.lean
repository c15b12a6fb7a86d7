import SignatureDocs.Path
import SignatureDocs.Settings.Model

/-!
What can be set: how documentation is asked for and where it goes, and how the providers are reached.
-/
namespace SignatureDocs

/-- Settings of the documentation. -/
structure RenderSettings where
  model : Model := .gpt3
  outputDir : Path := "./docs/wowapi/classes"
  /-- The file with an example of documentation. -/
  samplePath : Option Path := none
  maxTokens : UInt32 := 2000
  timeoutSecs : UInt64 := 120
deriving DecidableEq, Repr

/-- Settings of a provider. -/
structure ProviderSettings where
  apiKey : String
  baseUrl : String
deriving DecidableEq, Repr

/-- The settings of a provider of which nothing is set. -/
def Provider.defaults : Provider → ProviderSettings
  | openAi => ⟨"", "https://api.openai.com/v1"⟩
  | anthropic => ⟨"", "https://api.anthropic.com/v1"⟩

/-- A provider can be used if its key is not empty. -/
def ProviderSettings.isConfigured (p : ProviderSettings) : Bool := p.apiKey != ""

structure Settings where
  render : RenderSettings := {}
  openAi : ProviderSettings := Provider.openAi.defaults
  anthropic : ProviderSettings := Provider.anthropic.defaults
deriving DecidableEq, Repr

/-- A provider without a key. -/
structure MissingKey where
  provider : Provider
deriving DecidableEq, Repr

def MissingKey.message (m : MissingKey) : String :=
  let s := m.provider.sectionName
  "no API key for [" ++ s ++ "]; set " ++ s ++ ".api_key or its environment variable"

namespace Settings

/-- The settings of a provider. -/
def ofProvider (s : Settings) : Provider → ProviderSettings
  | .openAi => s.openAi
  | .anthropic => s.anthropic

/-- The settings of the provider of a model, if it can be used. -/
def providerFor (s : Settings) (m : Model) : Except MissingKey ProviderSettings :=
  let p := s.ofProvider m.provider
  if p.isConfigured then .ok p else .error ⟨m.provider⟩

end Settings

end SignatureDocs
