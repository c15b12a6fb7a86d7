/-!
What can go wrong with a file. Whether there is a way to it is settled when it is opened; whether there is room for
what is written to it shows only afterwards.
-/
namespace SignatureDocs

/-- Why a file could not be read or written. -/
inductive FileFault where
  | notFound
  /-- Something else stands where a directory is wanted. -/
  | occupied
  /-- A path leads through something that is not a directory. -/
  | notDirectory
  | isDirectory
  | nameTooLong
  /-- The bytes of the file spell no text. -/
  | notText
  /-- The path contains the null character. -/
  | nullInPath
  /-- The file was opened, but not everything came into it that was written to it. -/
  | unwritten (cause : String)
deriving DecidableEq, Repr

def FileFault.message : FileFault → String
  | notFound => "No such file or directory (os error 2)"
  | occupied => "File exists (os error 17)"
  | notDirectory => "Not a directory (os error 20)"
  | isDirectory => "Is a directory (os error 21)"
  | nameTooLong => "File name too long (os error 36)"
  | notText => "stream did not contain valid UTF-8"
  | nullInPath => "file name contained an unexpected NUL byte"
  | unwritten cause => cause

/-- What a disk makes of a write to a file: it takes all bytes, or it takes so many at most and gives a cause for
refusing the others. -/
inductive Room where
  | enough
  | only (count : Nat) (cause : String)
deriving DecidableEq, Repr

namespace Room

/-- The bytes of a write that come into the file. -/
def taken : Room → List UInt8 → List UInt8
  | enough, bytes => bytes
  | only n _, bytes => bytes.take n

/-- The fault of a write that stops before its end. -/
def fault? : Room → List UInt8 → Option FileFault
  | enough, _ => none
  | only n cause, bytes => if n < bytes.length then some (.unwritten cause) else none

end Room

end SignatureDocs
