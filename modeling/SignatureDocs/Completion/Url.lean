import SignatureDocs.Text.Hex
import SignatureDocs.Text.Utf8

/-!
Addresses on the web in their normal form: letters of the host in lower case, no usual port, no dots among the
names of the path, and characters outside ASCII written by their bytes.
-/
namespace SignatureDocs

open SignatureDocs.Text

/-- An address. -/
structure Url where
  scheme : String
  host : String
  port : Option Nat
  /-- The path with its first slash. -/
  path : String
  query : Option String
  fragment : Option String
deriving DecidableEq, Repr

/-- Why a text is no address that can be asked. -/
inductive UrlFault where
  | noScheme
  | emptyHost
  | badHost
  | badNumericHost
  | badPort
  /-- The scheme is another one; the text is the address. -/
  | otherScheme (text : String)
deriving DecidableEq, Repr

def UrlFault.message : UrlFault → String
  | noScheme => "relative URL without a base"
  | emptyHost => "empty host"
  | badHost => "invalid domain character"
  | badNumericHost => "invalid IPv4 address"
  | badPort => "invalid port number"
  | otherScheme _ => "URL scheme is not allowed"

namespace Url

/-- What is sent to the host: the path and the query. -/
def target (u : Url) : String := u.path ++ (u.query.map ("?" ++ ·)).getD ""

/-- The text of an address. -/
def text (u : Url) : String :=
  u.scheme ++ "://" ++ u.host ++ (u.port.map fun p => ":" ++ toString p).getD "" ++ u.target ++
    (u.fragment.map ("#" ++ ·)).getD ""

/-- The percent form of a byte. -/
def percent (b : UInt8) : List Char :=
  let ds := (hexDigits b.toNat).map Char.toUpper
  '%' :: (if ds.length < 2 then '0' :: ds else ds)

/-- Writes characters that are not ASCII, controls and those of a list by their bytes. -/
def encodePart (marks : String) (cs : List Char) : List Char :=
  cs.flatMap fun c =>
    if c.toNat < 0x20 || 0x7E < c.toNat || marks.toList.contains c then (encodeChar c).flatMap percent
    else [c]

/-- Characters that do not stand for themselves in a path. -/
def pathMarks : String := " \"<>`#?\x7b\x7d"

/-- Characters that do not stand for themselves in a query. -/
def queryMarks : String := " \"#<>'"

/-- Characters that do not stand for themselves in a fragment. -/
def fragmentMarks : String := " \"<>`"

/-- A name in a path with the percent form of the dot undone, in lower case. -/
def plainDots : List Char → List Char
  | '%' :: '2' :: e :: cs => if e = 'e' || e = 'E' then '.' :: plainDots cs else '%' :: '2' :: plainDots (e :: cs)
  | c :: cs => c :: plainDots cs
  | [] => []

def isDot (name : List Char) : Bool := plainDots name = ['.']

def isDoubleDot (name : List Char) : Bool := plainDots name = ['.', '.']

/-- Resolves the dots among the names of a path; the names before come last first. -/
def resolveDots : List (List Char) → List (List Char) → List (List Char)
  | before, [] => before.reverse
  | before, [name] =>
    if isDot name then ([] :: before).reverse
    else if isDoubleDot name then ([] :: before.tail).reverse
    else (name :: before).reverse
  | before, name :: names =>
    if isDot name then resolveDots before names
    else if isDoubleDot name then resolveDots before.tail names
    else resolveDots (name :: before) names

/-- Slashes of both kinds divide the names of a path. -/
def isSlash (c : Char) : Bool := c = '/' || c = '\\'

/-- The names of a path that starts with a slash or is empty. -/
def pathNames (cs : List Char) : List (List Char) :=
  (cs.drop 1).splitOnP isSlash

/-- The normal form of a path. -/
def normalPath (cs : List Char) : String :=
  let names := (resolveDots [] (pathNames cs)).map (encodePart pathMarks)
  String.ofList (names.flatMap ('/' :: ·))

/-- A number in a host: decimal, hexadecimal after `0x` or octal after `0`. -/
def hostNumber? (cs : List Char) : Option Nat :=
  let digits := fun (base : Nat) (ds : List Char) =>
    (ds.mapM hexValue?).bind fun vs =>
      if vs.all (· < base) then some (vs.foldl (fun n d => base * n + d) 0) else none
  match cs with
  | [] => none
  | '0' :: 'x' :: ds => digits 16 ds
  | '0' :: 'X' :: ds => digits 16 ds
  | '0' :: d :: ds => digits 8 (d :: ds)
  | ds => digits 10 ds

/-- Is the last part of a host a number? -/
def endsInNumber (parts : List (List Char)) : Bool :=
  match parts.getLast? with
  | none => false
  | some last => (!last.isEmpty && last.all Char.isDigit) || (hostNumber? last).isSome

/-- A host of numbers in its normal form: four numbers below 256 with dots between them. The last number that is
written fills the places that are left. -/
def numericHost? (parts : List (List Char)) : Option String :=
  (parts.mapM hostNumber?).bind fun ns =>
    match ns.reverse with
    | [] => none
    | last :: before =>
      if 4 < ns.length || before.any (255 < ·) || Nat.pow 256 (5 - ns.length) ≤ last then none
      else
        let high := before.reverse.foldl (fun n d => 256 * n + d) 0
        let value := high * Nat.pow 256 (5 - ns.length) + last
        some (String.intercalate "." ([3, 2, 1, 0].map fun k => toString (value / Nat.pow 256 k % 256)))

/-- Characters that no host contains. -/
def isForbiddenInHost (c : Char) : Bool :=
  c.toNat ≤ 0x20 || c.toNat = 0x7F || "#/:<>?@[\\]^|%".toList.contains c

/-- The normal form of a host. -/
def normalHost (cs : List Char) : Except UrlFault String :=
  if cs.isEmpty then .error .emptyHost
  else if cs.head? = some '[' then .ok (String.ofList (cs.map Char.toLower))
  else if cs.any isForbiddenInHost then .error .badHost
  else
    let parts := cs.splitOn '.'
    let parts := if 1 < parts.length && parts.getLast? = some [] then parts.dropLast else parts
    if endsInNumber parts then
      match numericHost? parts with
      | some h => .ok h
      | none => .error .badNumericHost
    else .ok (String.ofList (cs.map Char.toLower))

/-- The port that a scheme has if none is written. -/
def usualPort (scheme : String) : Nat := if scheme = "https" then 443 else 80

/-- The number of a port; the usual one is not written. -/
def normalPort (scheme : String) (ds : List Char) : Except UrlFault (Option Nat) :=
  if ds.isEmpty then .ok none
  else if !ds.all Char.isDigit then .error .badPort
  else
    let n := ds.foldl (fun n c => 10 * n + (c.toNat - '0'.toNat)) 0
    if 65535 < n then .error .badPort
    else .ok (if n = usualPort scheme then none else some n)

/-- The part of an authority after the name of a user. -/
def dropUser (cs : List Char) : List Char :=
  if cs.contains '@' then (cs.reverse.takeWhile (· != '@')).reverse else cs

/-- The host and the digits of the port of an authority. -/
def splitPort (cs : List Char) : List Char × List Char :=
  let host := if cs.head? = some '[' then cs.takeWhile (· != ']') ++ [']'] else cs.takeWhile (· != ':')
  (host, (cs.drop host.length).drop 1)

/-- Characters that end an authority. -/
def endsAuthority (c : Char) : Bool := isSlash c || c = '?' || c = '#'

/-- The parts of an address after its scheme. -/
def parseAfterScheme (scheme : String) (cs : List Char) : Except UrlFault Url := do
  let cs := cs.dropWhile isSlash
  let authority := cs.takeWhile (!endsAuthority ·)
  let rest := cs.drop authority.length
  let (hostText, portText) := splitPort (dropUser authority)
  let host ← normalHost hostText
  let port ← normalPort scheme portText
  let beforeFragment := rest.takeWhile (· != '#')
  let fragment := (rest.drop beforeFragment.length).tail?
  let path := beforeFragment.takeWhile (· != '?')
  let query := (beforeFragment.drop path.length).tail?
  return ⟨scheme, host, port, normalPath path, query.map (String.ofList ∘ encodePart queryMarks),
    fragment.map (String.ofList ∘ encodePart fragmentMarks)⟩

/-- Characters of a scheme after its first letter. -/
def isSchemeChar (c : Char) : Bool := c.isAlphanum || c = '+' || c = '-' || c = '.'

/-- The scheme of an address and what follows the colon. -/
def takeScheme? (cs : List Char) : Option (String × List Char) :=
  let name := cs.takeWhile isSchemeChar
  match cs.drop name.length with
  | ':' :: rest =>
    if (name.head?.map Char.isAlpha).getD false then some (String.ofList (name.map Char.toLower), rest)
    else none
  | _ => none

/-- Reads an address. Blanks and controls around it and line ends in it do not count. -/
def parse (s : String) : Except UrlFault Url :=
  let outer := fun (c : Char) => c.toNat ≤ 0x20
  let cs := ((s.toList.dropWhile outer).reverse.dropWhile outer).reverse
  let cs := cs.filter fun c => c != '\t' && c != '\n' && c != '\r'
  match takeScheme? cs with
  | none => .error .noScheme
  | some (scheme, rest) =>
    if scheme = "http" || scheme = "https" then parseAfterScheme scheme rest
    else .error (.otherScheme (scheme ++ ":" ++ String.ofList rest))

end Url

end SignatureDocs
