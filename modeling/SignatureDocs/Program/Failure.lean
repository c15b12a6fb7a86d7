import SignatureDocs.CommandLine.Invocation
import SignatureDocs.Documentation.Pipeline
import SignatureDocs.Method.FromFile
import SignatureDocs.Settings.EnvFile
import SignatureDocs.Settings.Load

/-!
Why a command failed, from what was being done to what went wrong.
-/
namespace SignatureDocs

/-- What is wrong with a file of environment variables. -/
inductive EnvFileFault where
  | unreadable (fault : FileFault)
  | badLine (fault : EnvFile.Fault)
deriving DecidableEq, Repr

/-- Why a command failed. -/
inductive Failure where
  | envFile (path : Path) (fault : EnvFileFault)
  /-- The settings cannot be loaded; the path is that of the file that is named, if any is. -/
  | settings (named : Option Path) (fault : SettingsFault)
  | extraction (declarationName : String) (file : Path) (fault : ExtractFault)
  | sample (fault : PathFault)
  | provider (model : Model) (fault : MissingKey)
  /-- The provider cannot be reached from here. -/
  | connection (model : Model) (fault : HttpFault)
  | generation (fault : RenderFault)
deriving DecidableEq, Repr

namespace FileFault

/-- A fault of a file is told together with its cause, which is the same again. -/
def chain (told : String) (f : FileFault) : List String := [told, f.message]

end FileFault

def EnvFileFault.chain : EnvFileFault → List String
  | unreadable f => f.chain f.message
  | badLine f => [f.message]

def SettingsFault.chain : SettingsFault → List String
  | missingFile p => [(SettingsFault.missingFile p).message]
  | f => [f.message, f.cause]

def ExtractFault.chain : ExtractFault → List String
  | unreadable p f => f.chain (ExtractFault.unreadable p f).message
  | unparsable f => [f.message]

def PathFault.chain (f : PathFault) : List String := f.fault.chain f.message

/-- The cause of a fault on the way, as far as it is known. -/
def HttpFault.cause : HttpFault → List String
  | noClient cause => [cause]
  | badUrl f => [f.message]
  | badHeader => ["failed to parse header value"]
  | unsent _ | undecodable _ => []

def CompletionFault.chain : CompletionFault → List String
  | http f => (CompletionFault.http f).message :: f.message :: f.cause
  | f => [f.message]

def RenderFault.chain : RenderFault → List String
  | completion f => f.chain
  | storage f => f.chain

namespace Failure

/-- What was being done, and then the causes. -/
def chain : Failure → List String
  | envFile p f => ("failed to load dotenv file at " ++ p) :: f.chain
  | settings (some p) f => ("failed to load config file " ++ p) :: f.chain
  | settings none f => "failed to load configuration" :: f.chain
  | extraction name file f => ("failed to extract methods of " ++ name ++ " from " ++ file) :: f.chain
  | sample f => "failed to read few-shot example" :: f.chain
  | provider m f => ["cannot use model " ++ m.name, f.message]
  | connection m f => ("cannot use model " ++ m.name) :: (CompletionFault.http f).chain
  | generation f => "documentation generation failed" :: f.chain

def message (f : Failure) : String := String.intercalate ": " f.chain

end Failure

end SignatureDocs
