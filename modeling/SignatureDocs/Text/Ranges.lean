/-!
Sets of code points as ranges in ascending order.
-/
namespace SignatureDocs.Text

/-- Is `n` in one of the ranges, which are in order? Halves the ranges at most `steps` times. -/
def inRanges (ranges : Array (Nat × Nat)) (n : Nat) : (steps lo hi : Nat) → Bool
  | 0, _, _ => false
  | steps + 1, lo, hi =>
    if hi ≤ lo then false
    else
      let mid := (lo + hi) / 2
      match ranges[mid]? with
      | none => false
      | some (first, last) =>
        if n < first then inRanges ranges n steps lo mid
        else if last < n then inRanges ranges n steps (mid + 1) hi
        else true

/-- Is a code point in one of the ranges, which are in order? -/
def memRanges (ranges : Array (Nat × Nat)) (n : Nat) : Bool :=
  inRanges ranges n 24 0 ranges.size

end SignatureDocs.Text
