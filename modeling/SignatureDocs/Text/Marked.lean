import SignatureDocs.Text.Utf8

/-!
Text whose bytes may start with a byte order mark. The mark says how the rest is to be read: by bytes, or by
pairs of bytes with the high or the low one first.
-/
namespace SignatureDocs.Text

/-- Pairs of bytes as numbers, the high byte first if `high` says so; a byte alone at the end is broken. -/
def pairUnits (high : Bool) : List UInt8 → List (Option Nat)
  | [] => []
  | [_] => [none]
  | a :: b :: bs =>
    let n := if high then 256 * a.toNat + b.toNat else 256 * b.toNat + a.toNat
    some n :: pairUnits high bs

/-- The characters of units of sixteen bits, after the first half of a character or not. Two halves make one
character, and a half alone is broken. -/
def decodeUnits : Option Nat → List (Option Nat) → List (Option Char)
  | none, [] => []
  | some _, [] => [none]
  | none, none :: us => none :: decodeUnits none us
  | some _, none :: us => none :: none :: decodeUnits none us
  | half, some n :: us =>
    let lone : List (Option Char) := if half.isSome then [none] else []
    if n < 0xD800 || 0xE000 ≤ n then lone ++ some (Char.ofNat n) :: decodeUnits none us
    else if n < 0xDC00 then lone ++ decodeUnits (some n) us
    else
      match half with
      | some h => some (Char.ofNat (0x10000 + (h - 0xD800) * 0x400 + (n - 0xDC00))) :: decodeUnits none us
      | none => none :: decodeUnits none us

/-- The text of bytes that may start with a byte order mark, with a replacement character for what spells
none. -/
def decodeMarked (bs : List UInt8) : List Char :=
  match bs with
  | 0xEF :: 0xBB :: 0xBF :: rest => decodeLossy rest
  | 0xFE :: 0xFF :: rest => (decodeUnits none (pairUnits true rest)).map (·.getD '�')
  | 0xFF :: 0xFE :: rest => (decodeUnits none (pairUnits false rest)).map (·.getD '�')
  | _ => decodeLossy bs

end SignatureDocs.Text
