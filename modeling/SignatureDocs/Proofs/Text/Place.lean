import SignatureDocs.Proofs.Text.Offset

/-!
Places in a text and its offsets. The place of an offset is counted over the characters before it: a line for every end
of a line, and a column for every character since then. So later offsets have later places, and a place leads back to
its offset: take the line of the text that it names and skip the characters before its column.
-/
namespace SignatureDocs.Text

/-- A place is before another if its line is, or if it is farther left on the same line. -/
instance : LT Place where
  lt p q := p.line < q.line ∨ p.line = q.line ∧ p.column < q.column

namespace Place

theorem lt_iff {p q : Place} : p < q ↔ p.line < q.line ∨ p.line = q.line ∧ p.column < q.column := Iff.rfl

theorem lt_trans {p q r : Place} (hpq : p < q) (hqr : q < r) : p < r := by
  rw [lt_iff] at hpq hqr ⊢
  omega

theorem lt_next (p : Place) (c : Char) : p < p.next c := by
  rw [lt_iff, next]
  split_ifs
  · exact .inl (Nat.lt_succ_self p.line)
  · exact .inr ⟨rfl, Nat.lt_succ_self p.column⟩

theorem lt_foldl_next {cs : List Char} (h : cs ≠ []) (p : Place) : p < cs.foldl next p := by
  induction cs generalizing p with
  | nil => exact absurd rfl h
  | cons c cs ih =>
    rw [List.foldl_cons]
    cases cs with
    | nil => exact lt_next p c
    | cons d ds => exact lt_trans (lt_next p c) (ih (List.cons_ne_nil d ds) (p.next c))

end Place

theorem placeOf_append (before rest : List Char) :
    placeOf (before ++ rest) (byteLength before) = before.foldl Place.next ⟨1, 1⟩ := by
  rw [placeOf, takeBytes?_append, Option.getD_some]

/-- Between an offset and a later one there are characters, and each of them moves the place on. -/
theorem placeOf_lt {cs : List Char} {a b : Nat} (ha : (dropBytes? cs a).isSome) (hb : (dropBytes? cs b).isSome)
    (hab : a < b) : placeOf cs a < placeOf cs b := by
  obtain ⟨us, hus⟩ := Option.isSome_iff_exists.mp ha
  obtain ⟨vs, hvs⟩ := Option.isSome_iff_exists.mp hb
  obtain ⟨before, rfl, rfl⟩ := dropBytes?_eq_some_iff.mp hus
  obtain ⟨xs, rfl, hlen⟩ := dropBytes?_between hus hvs hab.le
  have hne : xs ≠ [] := by
    rintro rfl
    rw [byteLength_nil] at hlen
    omega
  have hb : b = byteLength (before ++ xs) := by
    rw [byteLength_append]
    omega
  have hlater : placeOf (before ++ (xs ++ vs)) b = xs.foldl Place.next (before.foldl Place.next ⟨1, 1⟩) := by
    rw [hb, ← List.append_assoc, placeOf_append, List.foldl_append]
  rw [placeOf_append, hlater]
  exact Place.lt_foldl_next hne _

/-- Lines one after the other, each with its end. -/
def wholeLines (lines : List (List Char)) : List Char := lines.flatMap (· ++ ['\n'])

/-- The offset to which a place leads: that of its line in the text and, from there, the characters before its column.
There is none if the text has no such line or if the line is too short. -/
def offsetOf? (cs : List Char) (p : Place) : Option Nat :=
  match p with
  | ⟨line + 1, column + 1⟩ =>
    let lines := cs.splitOn '\n'
    (lines[line]?).bind fun text =>
      if column ≤ text.length then some (byteLength (wholeLines (lines.take line)) + byteLength (text.take column))
      else none
  | _ => none

theorem wholeLines_cons (line : List Char) (lines : List (List Char)) :
    wholeLines (line :: lines) = line ++ '\n' :: wholeLines lines := by
  rw [wholeLines, List.flatMap_cons, List.append_assoc]
  rfl

theorem wholeLines_append (xs ys : List (List Char)) : wholeLines (xs ++ ys) = wholeLines xs ++ wholeLines ys :=
  List.flatMap_append

/-- A part of a text from its start: the lines that end in it, and what it has of one more line. -/
structure Lined (cs : List Char) (above : List (List Char)) (last : List Char) : Prop where
  eq_append : cs = wholeLines above ++ last
  above_plain : ∀ line ∈ above, '\n' ∉ line
  last_plain : '\n' ∉ last

theorem exists_lined (cs : List Char) : ∃ above last, Lined cs above last := by
  induction cs with
  | nil => exact ⟨[], [], rfl, by simp, by simp⟩
  | cons c cs ih =>
    obtain ⟨above, last, rfl, habove, hlast⟩ := ih
    by_cases hc : c = '\n'
    · subst hc
      exact ⟨[] :: above, last, rfl, by simpa using habove, hlast⟩
    · -- the character joins the first line, which may be the only one
      cases above with
      | nil => exact ⟨[], c :: last, rfl, by simp, by simpa [Ne.symm hc] using hlast⟩
      | cons line above =>
        refine ⟨(c :: line) :: above, last, ?_, ?_, hlast⟩
        · rw [wholeLines_cons, wholeLines_cons]
          rfl
        · simpa [Ne.symm hc] using habove

theorem Place.foldl_next_of_not_mem {text : List Char} (h : '\n' ∉ text) (p : Place) :
    text.foldl next p = ⟨p.line, p.column + text.length⟩ := by
  induction text generalizing p with
  | nil => rfl
  | cons c text ih =>
    obtain ⟨hc, htext⟩ : '\n' ≠ c ∧ '\n' ∉ text := by simpa using h
    rw [List.foldl_cons, ih htext, next, if_neg (Ne.symm hc), List.length_cons]
    exact congrArg (Place.mk p.line) (Nat.add_right_comm p.column 1 text.length)

theorem splitOn_append_of_not_mem {last rest text : List Char} {below : List (List Char)} (h : '\n' ∉ last)
    (hrest : rest.splitOn '\n' = text :: below) : (last ++ rest).splitOn '\n' = (last ++ text) :: below := by
  induction last with
  | nil => exact hrest
  | cons c last ih =>
    obtain ⟨hc, hlast⟩ : '\n' ≠ c ∧ '\n' ∉ last := by simpa using h
    rw [List.cons_append, List.splitOn_cons_eq_if_modifyHead, if_neg (by simpa using Ne.symm hc), ih hlast,
      List.modifyHead_cons, List.cons_append]

namespace Lined

variable {cs last : List Char} {above : List (List Char)}

/-- A line is counted for each of the lines above, and the column starts anew behind each of them. -/
theorem foldl_next (h : Lined cs above last) (line : Nat) :
    cs.foldl Place.next ⟨line, 1⟩ = ⟨line + above.length, last.length + 1⟩ := by
  obtain ⟨rfl, habove, hlast⟩ := h
  induction above generalizing line with
  | nil =>
    have hnil : wholeLines [] ++ last = last := rfl
    rw [hnil, Place.foldl_next_of_not_mem hlast, Nat.add_comm 1]
    rfl
  | cons x above ih =>
    obtain ⟨hx, habove⟩ := List.forall_mem_cons.mp habove
    have hend : Place.next ⟨line, 1 + x.length⟩ '\n' = ⟨line + 1, 1⟩ := rfl
    rw [wholeLines_cons, List.append_assoc, List.foldl_append, Place.foldl_next_of_not_mem hx, List.cons_append,
      List.foldl_cons, hend, ih (line + 1) habove, List.length_cons]
    exact congrArg (Place.mk · _) (by omega)

/-- The first line of what follows goes on where the text stops. -/
theorem splitOn_append (h : Lined cs above last) (rest : List Char) : ∃ text below,
    rest.splitOn '\n' = text :: below ∧ (cs ++ rest).splitOn '\n' = above ++ (last ++ text) :: below := by
  obtain ⟨text, below, hrest⟩ := List.exists_cons_of_ne_nil (List.splitOn_ne_nil '\n' rest)
  refine ⟨text, below, hrest, ?_⟩
  obtain ⟨rfl, habove, hlast⟩ := h
  induction above with
  | nil => exact splitOn_append_of_not_mem hlast hrest
  | cons x above ih =>
    obtain ⟨hx, habove⟩ := List.forall_mem_cons.mp habove
    rw [wholeLines_cons, List.append_assoc, List.append_assoc, List.cons_append,
      List.splitOn_append_cons_self_of_not_mem hx, ← List.append_assoc, ih habove, List.cons_append]

theorem splitOn_eq (h : Lined cs above last) : cs.splitOn '\n' = above ++ [last] := by
  obtain ⟨text, below, hrest, hsplit⟩ := h.splitOn_append []
  obtain ⟨rfl, rfl⟩ : [] = text ∧ [] = below := by simpa using hrest
  simpa using hsplit

end Lined

/-- Each line stands in the text behind the lines above it. -/
theorem exists_lined_of_splitOn {cs text : List Char} {above below : List (List Char)}
    (h : cs.splitOn '\n' = above ++ text :: below) (column : Nat) :
    ∃ before rest, cs = before ++ rest ∧ Lined before above (text.take column) := by
  obtain ⟨lines, last, hlined⟩ := exists_lined cs
  rw [hlined.splitOn_eq] at h
  have hplain : ∀ line ∈ above ++ text :: below, '\n' ∉ line := by
    rw [← h, List.forall_mem_append]
    exact ⟨hlined.above_plain, by simpa using hlined.last_plain⟩
  have hcut : ∃ rest, cs = wholeLines above ++ (text ++ rest) := by
    rw [hlined.eq_append]
    -- the last line of the text has no end, so it is told apart from those that have one
    rcases List.eq_nil_or_concat below with rfl | ⟨below, x, rfl⟩
    · obtain ⟨rfl, hlast⟩ := List.append_inj' h rfl
      obtain rfl := List.singleton_inj.mp hlast
      exact ⟨[], by rw [List.append_nil]⟩
    · have hlines : lines ++ [last] = (above ++ text :: below) ++ [x] := by
        rw [h, List.concat_eq_append, List.append_assoc, List.cons_append]
      obtain ⟨rfl, -⟩ := List.append_inj' hlines rfl
      refine ⟨'\n' :: wholeLines below ++ last, ?_⟩
      rw [wholeLines_append, wholeLines_cons]
      simp only [List.append_assoc, List.cons_append]
  obtain ⟨rest, rfl⟩ := hcut
  obtain ⟨habove, htext⟩ := List.forall_mem_append.mp hplain
  refine ⟨wholeLines above ++ text.take column, text.drop column ++ rest, ?_, rfl, habove, ?_⟩
  · rw [List.append_assoc, ← List.append_assoc (text.take column), List.take_append_drop]
  · exact fun hmem => htext text List.mem_cons_self (List.mem_of_mem_take hmem)

/-- A place leads to an offset if and only if the text has its line, and its column is on that line or right behind
it. -/
theorem offsetOf?_eq_some_iff {cs : List Char} {p : Place} {n : Nat} :
    offsetOf? cs p = some n ↔ ∃ above text below column, cs.splitOn '\n' = above ++ text :: below ∧
      column ≤ text.length ∧ p = ⟨above.length + 1, column + 1⟩ ∧
      n = byteLength (wholeLines above) + byteLength (text.take column) := by
  constructor
  · intro h
    unfold offsetOf? at h
    split at h
    · next line column =>
      obtain ⟨text, htext, h⟩ := Option.bind_eq_some_iff.mp h
      obtain ⟨hline, rfl⟩ := List.getElem?_eq_some_iff.mp htext
      split_ifs at h with hcolumn
      refine ⟨(cs.splitOn '\n').take line, _, (cs.splitOn '\n').drop (line + 1), column, ?_, hcolumn, ?_, ?_⟩
      · rw [← List.drop_eq_getElem_cons hline, List.take_append_drop]
      · rw [List.length_take_of_le hline.le]
      · exact (Option.some.inj h).symm
    · cases h
  · rintro ⟨above, text, below, column, hsplit, hcolumn, rfl, rfl⟩
    simp [offsetOf?, hsplit, hcolumn]

theorem offsetOf?_placeOf {cs : List Char} {a : Nat} (h : (dropBytes? cs a).isSome) :
    offsetOf? cs (placeOf cs a) = some a := by
  obtain ⟨rest, hrest⟩ := Option.isSome_iff_exists.mp h
  obtain ⟨before, rfl, rfl⟩ := dropBytes?_eq_some_iff.mp hrest
  obtain ⟨above, last, hlined⟩ := exists_lined before
  -- the line of the place may go on behind the offset
  obtain ⟨text, below, -, hsplit⟩ := hlined.splitOn_append rest
  apply offsetOf?_eq_some_iff.mpr
  refine ⟨above, last ++ text, below, last.length, hsplit, ?_, ?_, ?_⟩
  · rw [List.length_append]
    omega
  · rw [placeOf_append, hlined.foldl_next, Nat.add_comm 1]
  · rw [List.take_left, hlined.eq_append, byteLength_append]

theorem placeOf_offsetOf? {cs : List Char} {p : Place} {n : Nat} (h : offsetOf? cs p = some n) :
    (dropBytes? cs n).isSome ∧ placeOf cs n = p := by
  obtain ⟨above, text, below, column, hsplit, hcolumn, rfl, rfl⟩ := offsetOf?_eq_some_iff.mp h
  obtain ⟨before, rest, rfl, hlined⟩ := exists_lined_of_splitOn hsplit column
  have hn : byteLength (wholeLines above) + byteLength (text.take column) = byteLength before := by
    rw [hlined.eq_append, byteLength_append]
  rw [hn]
  constructor
  · rw [dropBytes?_eq_some_iff.mpr ⟨before, rfl, rfl⟩]
    rfl
  · rw [placeOf_append, hlined.foldl_next, List.length_take_of_le hcolumn, Nat.add_comm 1]

/-- Places tell the offsets between the characters of a text apart, in their order. The line of a place, taken out of
the text, and the characters before its column lead back to the offset, and only the place of an offset leads to it. -/
theorem placeOf_faithful (cs : List Char) :
    (∀ a b, (dropBytes? cs a).isSome → (dropBytes? cs b).isSome → a < b → placeOf cs a < placeOf cs b) ∧
      (∀ a b, (dropBytes? cs a).isSome → (dropBytes? cs b).isSome → a ≠ b → placeOf cs a ≠ placeOf cs b) ∧
      (∀ a, (dropBytes? cs a).isSome → offsetOf? cs (placeOf cs a) = some a) ∧
      ∀ p a, offsetOf? cs p = some a → (dropBytes? cs a).isSome ∧ placeOf cs a = p := by
  refine ⟨?_, ?_, ?_, ?_⟩
  · intro a b ha hb hab
    exact placeOf_lt ha hb hab
  · intro a b ha hb hab hplace
    have hback := offsetOf?_placeOf ha
    rw [hplace, offsetOf?_placeOf hb] at hback
    exact hab (Option.some.inj hback).symm
  · intro a ha
    exact offsetOf?_placeOf ha
  · intro p a h
    exact placeOf_offsetOf? h

/-- A letter of two bytes before the end of a line, an empty line, and a sign of four bytes on the last line. -/
theorem placeOf_faithful_signs :
    let cs := ['\u00e9', '\n', '\n', Char.ofNat 0x1f600, 'x']
    placeOf cs 3 < placeOf cs 8 ∧ placeOf cs 3 = ⟨2, 1⟩ ∧ offsetOf? cs (placeOf cs 8) = some 8 ∧
      placeOf cs 9 = ⟨3, 3⟩ := by
  intro cs
  obtain ⟨hlt, -, hback, hplace⟩ := placeOf_faithful cs
  exact ⟨hlt 3 8 (by decide) (by decide) (by decide), by decide, hback 8 (by decide),
    (hplace ⟨3, 3⟩ 9 (by decide)).2⟩

end SignatureDocs.Text
