import SignatureDocs.Proofs.Grammar.Signs
import SignatureDocs.Proofs.Grammar.Tiling

/-!
The gaps between the lexemes of a file, cut into the pieces that the grammar skips: runs of blanks and comments, each
as long as the grammar takes it.
-/
namespace SignatureDocs.Grammar

open SignatureDocs.Text Reader

/-- A piece of a gap. -/
inductive Piece where
  | blanks (text : List Char)
  | remark (text : List Char)
deriving DecidableEq, Repr

namespace Piece

def text : Piece → List Char
  | blanks x | remark x => x

/-- The comment that a piece is. -/
def remark? : Piece → Option (List Char)
  | blanks _ => none
  | remark x => some x

end Piece

/-- The text of pieces one after another. -/
def gapText (gap : List Piece) : List Char := gap.flatMap Piece.text

/-- The comments among the pieces of a gap. -/
def remarks (gap : List Piece) : List (List Char) := gap.filterMap Piece.remark?

/-- The piece at the start of a text, as the grammar delimits it. -/
def piece? (cs : List Char) : Option (Piece × List Char) :=
  match run1 isSourceBlank cs with
  | some (x, rest) => some (.blanks x, rest)
  | none => (comment cs).map fun (x, rest) => (.remark x, rest)

/-- Cuts the gap at the start of a text into at most as many pieces as the list is long. -/
def piecesWithin : List Char → List Char → List Piece × List Char
  | [], cs => ([], cs)
  | _ :: budget, cs =>
    match piece? cs with
    | none => ([], cs)
    | some (p, rest) =>
      let (gap, rest') := piecesWithin budget rest
      (p :: gap, rest')

/-- Cuts the gap at the start of a text into pieces, and gives what follows it. -/
def pieces (cs : List Char) : List Piece × List Char := piecesWithin cs cs

/-- Each piece of a gap before a text is what the grammar takes there. -/
def Cut (rest : List Char) : List Piece → Prop
  | [] => True
  | p :: gap => piece? (p.text ++ (gapText gap ++ rest)) = some (p, gapText gap ++ rest) ∧ Cut rest gap

@[simp] theorem gapText_nil : gapText [] = [] := rfl

@[simp] theorem gapText_cons (p : Piece) (gap : List Piece) : gapText (p :: gap) = p.text ++ gapText gap := rfl

@[simp] theorem remarks_nil : remarks [] = [] := rfl

@[simp] theorem remarks_blanks (x : List Char) (gap : List Piece) : remarks (.blanks x :: gap) = remarks gap := rfl

@[simp] theorem remarks_remark (x : List Char) (gap : List Piece) :
    remarks (.remark x :: gap) = x :: remarks gap := rfl

theorem run1_eq_some {p : Char → Bool} {cs x rest : List Char} (h : run1 p cs = some (x, rest)) :
    cs = x ++ rest ∧ x ≠ [] ∧ (∀ c ∈ x, p c = true) ∧ ∀ c ∈ rest.head?, p c = false := by
  unfold run1 at h
  split at h
  · simp at h
  · next hne =>
    obtain ⟨rfl, rfl⟩ := Prod.mk.inj (Option.some.inj h)
    refine ⟨List.takeWhile_append_dropWhile.symm, hne, fun c hc => List.mem_takeWhile_imp hc, fun c hc => ?_⟩
    cases hrest : cs.dropWhile p with
    | nil => simp [hrest] at hc
    | cons y ys =>
      have hy := List.head?_dropWhile_not p cs
      rw [hrest] at hc hy
      obtain rfl := Option.some.inj hc
      simpa using hy

/-- A run of blanks is not empty and ends before another character. -/
theorem piece?_eq_blanks {cs x rest : List Char} (h : piece? cs = some (.blanks x, rest)) :
    cs = x ++ rest ∧ x ≠ [] ∧ (∀ c ∈ x, isSourceBlank c = true) ∧ ∀ c ∈ rest.head?, isSourceBlank c = false := by
  unfold piece? at h
  split at h
  · next y rest' hrun =>
    simp only [Option.some.injEq, Prod.mk.injEq, Piece.blanks.injEq] at h
    obtain ⟨rfl, rfl⟩ := h
    exact run1_eq_some hrun
  · simp at h

theorem piece?_eq_remark {cs x rest : List Char} (h : piece? cs = some (.remark x, rest)) :
    comment cs = some (x, rest) := by
  unfold piece? at h
  split at h
  · simp at h
  · obtain ⟨⟨y, rest'⟩, hcomment, heq⟩ := Option.map_eq_some_iff.1 h
    obtain ⟨hx, rfl⟩ := Prod.mk.inj heq
    rw [hcomment, Piece.remark.inj hx]

theorem piece?_eq_append {cs rest : List Char} {p : Piece} (h : piece? cs = some (p, rest)) :
    cs = p.text ++ rest := by
  cases p with
  | blanks x => exact (piece?_eq_blanks h).1
  | remark x => exact Splits.eq_append (piece?_eq_remark h)

/-- A piece is what the grammar skips in one step. -/
theorem skipGap?_eq_piece (cs : List Char) (offset : Nat) : Located.skipGap? ⟨cs, offset⟩ =
    (piece? cs).map fun (p, rest) => ⟨rest, offset + byteLength p.text⟩ := by
  unfold Located.skipGap? Located.skip? orElse piece?
  cases hrun : run1 isSourceBlank cs with
  | some q => rfl
  | none => cases comment cs <;> rfl

/-- Cutting a text into pieces is what skipping a gap does. -/
theorem skipGaps_eq_pieces {budget cs rest : List Char} {gap : List Piece}
    (h : piecesWithin budget cs = (gap, rest)) (offset : Nat) : cs = gapText gap ++ rest ∧ Cut rest gap ∧
      Located.skipGaps budget ⟨cs, offset⟩ = ⟨rest, offset + byteLength (gapText gap)⟩ := by
  induction budget generalizing cs offset gap with
  | nil =>
    obtain ⟨rfl, rfl⟩ := Prod.mk.inj h
    exact ⟨rfl, trivial, rfl⟩
  | cons b budget ih =>
    rw [piecesWithin] at h
    rw [Located.skipGaps, skipGap?_eq_piece]
    cases hpiece : piece? cs with
    | none =>
      rw [hpiece] at h
      obtain ⟨rfl, rfl⟩ := Prod.mk.inj h
      exact ⟨rfl, trivial, rfl⟩
    | some q =>
      obtain ⟨p, mid⟩ := q
      rw [hpiece] at h
      rcases hmid : piecesWithin budget mid with ⟨gap', rest'⟩
      simp only [hmid, Prod.mk.injEq] at h
      obtain ⟨rfl, rfl⟩ := h
      obtain ⟨rfl, hcut, hskip⟩ := ih hmid (offset + byteLength p.text)
      obtain rfl := piece?_eq_append hpiece
      refine ⟨by rw [gapText_cons, List.append_assoc], ⟨hpiece, hcut⟩, ?_⟩
      simp only [Option.map_some, hskip, gapText_cons, byteLength_append, Nat.add_assoc]

variable {source : List Char}

/-- Between two offsets the source has the pieces of a gap, before a text. -/
structure GapBetween (source : List Char) (a b : Nat) (gap : List Piece) (rest : List Char) : Prop where
  start : dropBytes? source a = some (gapText gap ++ rest)
  stop : b = a + byteLength (gapText gap)
  pieces_eq : pieces (gapText gap ++ rest) = (gap, rest)

theorem GapTo.between {a b : Nat} (h : GapTo source a b) : ∃ gap rest, GapBetween source a b gap rest := by
  obtain ⟨text, htext, hnext⟩ := h
  rcases hpieces : pieces text with ⟨gap, rest⟩
  obtain ⟨rfl, -, hskip⟩ := skipGaps_eq_pieces hpieces a
  rw [Located.next, hskip] at hnext
  exact ⟨gap, rest, htext, hnext.symm, hpieces⟩

namespace GapBetween

variable {a b : Nat} {gap : List Piece} {rest : List Char}

theorem cut (h : GapBetween source a b gap rest) : Cut rest gap :=
  (skipGaps_eq_pieces h.pieces_eq 0).2.1

theorem slice (h : GapBetween source a b gap rest) : Text.slice source ⟨a, b⟩ = gapText gap := by
  rw [h.stop, Text.slice, slice?_eq_some h.start, Option.getD_some]

end GapBetween

/-- Spaces and tabs before a character that is none, and starts no comment, are a whole gap. -/
theorem next_of_spaces {gap tail : List Char} {x : Char} (hgap : ∀ c ∈ gap, c = ' ' ∨ c = '\t')
    (hx : leads (x :: tail) = true) (offset : Nat) :
    (Located.next ⟨gap ++ x :: tail, offset⟩).offset = offset + byteLength gap := by
  cases gap with
  | nil =>
    rw [Located.next, List.nil_append, skipGaps_leads hx]
    rfl
  | cons c gap =>
    have hblank : ∀ d ∈ c :: gap, isSourceBlank d = true := by
      intro d hd
      rcases hgap d hd with rfl | rfl <;> rfl
    have hhead : ∀ d ∈ (x :: tail).head?, isSourceBlank d = false := by simpa using (leads_cons hx).1
    have hrun := run1_append (List.cons_ne_nil c gap) hblank hhead
    rw [Located.next, List.cons_append, Located.skipGaps, skipGap?_eq_piece, ← List.cons_append]
    simp only [piece?, hrun, Option.map_some, skipGaps_leads hx, Piece.text]

end SignatureDocs.Grammar
