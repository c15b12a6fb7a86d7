import SignatureDocs.Method.Comment
import SignatureDocs.Proofs.Grammar.Gap
import SignatureDocs.Proofs.Text.Blank

/-!
The comments before a member are read twice: the grammar skips them as pieces of a gap, and the text of the gap is
scanned for them again, with other blanks and other ends of lines. The two readings give the same text unless an
invisible blank stands before a comment, or a line ends with a character at which the scan goes on.
-/
namespace SignatureDocs

open SignatureDocs.Text SignatureDocs.Grammar Reader

/-- A line comment goes on to a character that ends it, a block comment to the first place that closes it. -/
theorem comment_eq_some {cs x rest : List Char} (h : comment cs = some (x, rest)) :
    (∃ z, x = '/' :: '/' :: z ∧ (∀ c ∈ z, isLineText c = true) ∧ ∀ c ∈ rest.head?, isLineText c = false) ∨
      ∃ z, x = '/' :: '*' :: z ∧ blockTail (z ++ rest) = some (z, rest) := by
  unfold comment at h
  split at h
  · next tail =>
    simp only [run, Option.map_some, Option.some.injEq, Prod.mk.injEq] at h
    obtain ⟨rfl, rfl⟩ := h
    refine Or.inl ⟨_, rfl, fun c hc => List.mem_takeWhile_imp hc, fun c hc => ?_⟩
    have hhead := List.head?_dropWhile_not isLineText tail
    rw [Option.mem_def.1 hc] at hhead
    exact hhead
  · next tail =>
    obtain ⟨⟨z, rest'⟩, hz, heq⟩ := Option.map_eq_some_iff.1 h
    obtain ⟨rfl, rfl⟩ := Prod.mk.inj heq
    refine Or.inr ⟨z, rfl, ?_⟩
    obtain rfl : tail = z ++ rest' := Splits.eq_append hz
    exact hz
  · simp at h

theorem blockTail_ne_nil (cs rest : List Char) : blockTail cs ≠ some ([], rest) := by
  fun_cases blockTail cs <;> simp

/-- Where a block comment is closed does not depend on what follows. -/
theorem blockTail_congr {z rest : List Char} (h : blockTail (z ++ rest) = some (z, rest)) (rest' : List Char) :
    blockTail (z ++ rest') = some (z, rest') := by
  induction z with
  | nil => exact absurd h (blockTail_ne_nil rest rest)
  | cons c z ih =>
    by_cases hclose : c = '*' ∧ ∃ tail, z ++ rest = '/' :: tail
    · obtain ⟨rfl, tail, htail⟩ := hclose
      rw [List.cons_append, htail, blockTail] at h
      obtain ⟨rfl, rfl⟩ : z = ['/'] ∧ tail = rest := by simpa [eq_comm] using h
      rfl
    · have hopen : ∀ tail, c = '*' → z ++ rest = '/' :: tail → False := fun tail hc htail =>
        hclose ⟨hc, tail, htail⟩
      rw [List.cons_append, blockTail.eq_3 _ _ hopen] at h
      split_ifs at h with htext
      obtain ⟨⟨y, rest₁⟩, hy, heq⟩ := Option.map_eq_some_iff.1 h
      obtain ⟨hcons, rfl⟩ := Prod.mk.inj heq
      obtain ⟨-, rfl⟩ := List.cons.inj hcons
      -- the comment goes on, so its next character is in it and not behind it
      obtain ⟨d, z, rfl⟩ := List.exists_cons_of_ne_nil fun hnil : y = [] =>
        blockTail_ne_nil rest₁ rest₁ (by simpa [hnil] using hy)
      have hopen' : ∀ tail, c = '*' → (d :: z) ++ rest' = '/' :: tail → False := fun tail hc htail =>
        hopen (z ++ rest₁) hc (by rw [List.cons_append, (List.cons.inj htail).1])
      rw [List.cons_append, blockTail.eq_3 _ _ hopen', if_pos htext, ih hy]
      rfl

/-- Characters at which the scan stays in a line comment. -/
def staysInLine (c : Char) : Bool := c != '\n' && c != '\r'

/-- A block comment that the grammar closes is closed there for the scan, which has no forbidden characters. -/
theorem blockEnd_of_blockTail {cs x rest : List Char} (h : blockTail cs = some (x, rest)) :
    blockEnd cs = some (x, rest) := by
  fun_induction blockTail cs generalizing x rest with
  | case1 => cases h
  | case2 cs => exact h
  | case3 c cs hopen htext ih =>
    obtain ⟨⟨y, rest'⟩, hy, heq⟩ := Option.map_eq_some_iff.1 h
    rw [blockEnd.eq_3 _ _ hopen, ih hy]
    exact congrArg some heq
  | case4 => cases h

theorem blockEnd_eq_append {cs x rest : List Char} (h : blockEnd cs = some (x, rest)) : cs = x ++ rest := by
  fun_induction blockEnd cs generalizing x rest with
  | case1 => cases h
  | case2 cs =>
    obtain ⟨rfl, rfl⟩ := Prod.mk.inj (Option.some.inj h)
    rfl
  | case3 c cs _ ih =>
    obtain ⟨⟨y, rest'⟩, hy, heq⟩ := Option.map_eq_some_iff.1 h
    obtain ⟨rfl, rfl⟩ := Prod.mk.inj heq
    exact congrArg (c :: ·) (ih hy)

/-- A comment is at the start of the text, and starts with a slash. -/
theorem triviaComment_eq_append {cs x rest : List Char} (h : triviaComment cs = some (x, rest)) :
    cs = x ++ rest ∧ x.head? = some '/' := by
  unfold triviaComment at h
  split at h
  · simp only [run, Option.map_some, Option.some.injEq, Prod.mk.injEq] at h
    obtain ⟨rfl, rfl⟩ := h
    exact ⟨by rw [List.cons_append, List.cons_append, List.takeWhile_append_dropWhile], rfl⟩
  · split at h
    · next z rest' hz =>
      obtain ⟨rfl, rfl⟩ := Prod.mk.inj (Option.some.inj h)
      exact ⟨by rw [blockEnd_eq_append hz, List.cons_append, List.cons_append], rfl⟩
    · obtain ⟨rfl, rfl⟩ := Prod.mk.inj (Option.some.inj h)
      exact ⟨(List.append_nil _).symm, rfl⟩
  · cases h

theorem triviaComment_eq_some {cs x rest : List Char} (h : triviaComment cs = some (x, rest)) :
    x.head? = some '/' ∧ rest.length < cs.length := by
  obtain ⟨rfl, hhead⟩ := triviaComment_eq_append h
  obtain ⟨c, x, rfl⟩ := List.exists_cons_of_ne_nil fun hnil : x = [] => by simp [hnil] at hhead
  exact ⟨hhead, by simp only [List.length_append, List.length_cons]; omega⟩

theorem triviaComment_eq_none {c : Char} (hc : c ≠ '/') (cs : List Char) : triviaComment (c :: cs) = none := by
  unfold triviaComment
  split <;> simp_all

/-- The texts of the comments at the start of a text, in at most as many steps as the budget is long. -/
def commentsWithin : (budget : List Char) → List Char → List (List Char)
  | [], _ => []
  | _ :: budget, cs =>
    match triviaComment (cs.dropWhile isBlank) with
    | none => []
    | some (x, rest) => x :: commentsWithin budget rest

/-- The texts of the comments at the start of a text. -/
def comments (cs : List Char) : List (List Char) := commentsWithin cs cs

/-- More steps than the text has characters change nothing. -/
theorem commentsWithin_congr {b b' cs : List Char} (h : cs.length ≤ b.length) (h' : cs.length ≤ b'.length) :
    commentsWithin b cs = commentsWithin b' cs := by
  induction b generalizing b' cs with
  | nil =>
    obtain rfl : cs = [] := by simpa using h
    cases b' <;> rfl
  | cons x b ih =>
    cases b' with
    | nil =>
      obtain rfl : cs = [] := by simpa using h'
      rfl
    | cons x' b' =>
      rw [commentsWithin, commentsWithin]
      cases hread : triviaComment (cs.dropWhile isBlank) with
      | none => rfl
      | some q =>
        have hlt := (triviaComment_eq_some hread).2
        have hle := (List.dropWhile_suffix (l := cs) isBlank).length_le
        simp only [List.length_cons] at h h'
        exact congrArg (q.1 :: ·) (ih (by omega) (by omega))

theorem comments_of_none {cs : List Char} (h : triviaComment (cs.dropWhile isBlank) = none) : comments cs = [] := by
  cases cs with
  | nil => rfl
  | cons c cs => rw [comments, commentsWithin, h]

theorem comments_of_some {cs x rest : List Char} (h : triviaComment (cs.dropWhile isBlank) = some (x, rest)) :
    comments cs = x :: comments rest := by
  have hlt := (triviaComment_eq_some h).2
  have hle := (List.dropWhile_suffix (l := cs) isBlank).length_le
  cases cs with
  | nil => simp at hlt
  | cons c cs =>
    simp only [List.length_cons] at hle
    rw [comments, commentsWithin, h]
    exact congrArg (x :: ·) (commentsWithin_congr (by omega) le_rfl)

theorem comments_head (cs : List Char) : ∀ x ∈ comments cs, x.head? = some '/' := by
  induction hn : cs.length using Nat.strong_induction_on generalizing cs with
  | _ n ih =>
    cases hread : triviaComment (cs.dropWhile isBlank) with
    | none => simp [comments_of_none hread]
    | some q =>
      obtain ⟨x, rest⟩ := q
      obtain ⟨hx, hlt⟩ := triviaComment_eq_some hread
      have hle := (List.dropWhile_suffix (l := cs) isBlank).length_le
      rw [comments_of_some hread]
      intro y hy
      rcases List.mem_cons.1 hy with rfl | hy
      · exact hx
      · exact ih rest.length (by omega) rest rfl y hy

/-- The scan passes over blanks. -/
theorem comments_blanks {x : List Char} (h : ∀ c ∈ x, isBlank c = true) (cs : List Char) :
    comments (x ++ cs) = comments cs := by
  have hdrop : (x ++ cs).dropWhile isBlank = cs.dropWhile isBlank := List.dropWhile_append_of_pos h
  cases hread : triviaComment (cs.dropWhile isBlank) with
  | none => rw [comments_of_none hread, comments_of_none (hdrop ▸ hread)]
  | some q => rw [comments_of_some hread, comments_of_some (hdrop ▸ hread)]

/-- The scan ends at a blank that it does not know. -/
theorem comments_hidden {x : List Char} (hx : ∀ c ∈ x, isSourceBlank c = true)
    (h : ∃ c ∈ x, isBlank c = false) (cs : List Char) : comments (x ++ cs) = [] := by
  cases hdrop : x.dropWhile isBlank with
  | nil =>
    obtain ⟨c, hc, hblank⟩ := h
    rw [List.dropWhile_eq_nil_iff.1 hdrop c hc] at hblank
    cases hblank
  | cons c y =>
    have hc : isSourceBlank c = true := hx c ((List.dropWhile_suffix _).subset (hdrop ▸ List.mem_cons_self))
    have hne : c ≠ '/' := by
      rintro rfl
      cases hc
    apply comments_of_none
    rw [List.dropWhile_append, hdrop]
    exact triviaComment_eq_none hne _

/-- The scan takes a block comment as the grammar does. -/
theorem comments_block {z rest : List Char} (h : blockTail (z ++ rest) = some (z, rest)) (cs : List Char) :
    comments ('/' :: '*' :: z ++ cs) = ('/' :: '*' :: z) :: comments cs := by
  apply comments_of_some
  have hdrop : ('/' :: '*' :: z ++ cs).dropWhile isBlank = '/' :: '*' :: (z ++ cs) := rfl
  rw [hdrop, triviaComment, blockEnd_of_blockTail (blockTail_congr h cs)]

/-- The scan takes a line comment, and what follows it up to the next line feed or carriage return. -/
theorem comments_line {z : List Char} (h : ∀ c ∈ z, isLineText c = true) (cs : List Char) :
    comments ('/' :: '/' :: z ++ cs) =
      ('/' :: '/' :: z ++ cs.takeWhile staysInLine) :: comments (cs.dropWhile staysInLine) := by
  have hstays : ∀ c ∈ z, staysInLine c = true := by
    intro c hc
    have hline := h c hc
    simp only [isLineText, isLineEnd, Bool.and_eq_true, Bool.not_eq_true', Bool.or_eq_false_iff,
      decide_eq_false_iff_not] at hline
    simp [staysInLine, hline.1.1.1.1, hline.1.1.1.2]
  apply comments_of_some
  have hdrop : ('/' :: '/' :: z ++ cs).dropWhile isBlank = '/' :: '/' :: (z ++ cs) := rfl
  have htake : (z ++ cs).takeWhile staysInLine = z ++ cs.takeWhile staysInLine := List.takeWhile_append_of_pos hstays
  have hrest : (z ++ cs).dropWhile staysInLine = cs.dropWhile staysInLine := List.dropWhile_append_of_pos hstays
  have hrun : run staysInLine (z ++ cs) = some (z ++ cs.takeWhile staysInLine, cs.dropWhile staysInLine) := by
    rw [run, htake, hrest]
  rw [hdrop, triviaComment]
  exact congrArg (Option.map _) hrun

/-- What the scan takes of the blanks behind a line comment. -/
def overrun (blanks : List Char) : List Char := blanks.takeWhile staysInLine

/-- A line comment before the gap ends at it for the scan too, or is the last and goes on over blanks only. -/
def EndsLine : List Piece → Prop
  | .blanks x :: gap => overrun x = [] ∨ remarks gap = [] ∧ ∀ c ∈ overrun x, isBlank c = true
  | _ => True

/-- The scan reads the gap as the grammar does: no blank before a comment is unknown to it, and every line comment
ends for it where it ends for the grammar. -/
def Legible : List Piece → Prop
  | [] => True
  | .blanks x :: gap => (remarks gap ≠ [] → ∀ c ∈ x, isBlank c = true) ∧ Legible gap
  | .remark x :: gap => (['/', '/'] <+: x → EndsLine gap) ∧ Legible gap

instance EndsLine.decidable : (gap : List Piece) → Decidable (EndsLine gap)
  | .blanks x :: gap =>
    inferInstanceAs (Decidable (overrun x = [] ∨ remarks gap = [] ∧ ∀ c ∈ overrun x, isBlank c = true))
  | [] | .remark _ :: _ => inferInstanceAs (Decidable True)

instance Legible.decidable : (gap : List Piece) → Decidable (Legible gap)
  | [] => inferInstanceAs (Decidable True)
  | .blanks x :: gap =>
    have := Legible.decidable gap
    inferInstanceAs (Decidable ((remarks gap ≠ [] → ∀ c ∈ x, isBlank c = true) ∧ Legible gap))
  | .remark x :: gap =>
    have := Legible.decidable gap
    inferInstanceAs (Decidable ((['/', '/'] <+: x → EndsLine gap) ∧ Legible gap))

/-- The scan ends before the first comment, at a blank that it does not know. -/
def Hidden : List Piece → Prop
  | .blanks x :: _ => ∃ c ∈ x, isBlank c = false
  | _ => False

/-- The comments found are those wanted; the last may have blanks behind it. -/
inductive Matches : List (List Char) → List (List Char) → Prop where
  | nil : Matches [] []
  | last (x : List Char) {y : List Char} (h : ∀ c ∈ y, isBlank c = true) : Matches [x ++ y] [x]
  | cons (x : List Char) {found wanted : List (List Char)} (h : Matches found wanted) :
      Matches (x :: found) (x :: wanted)

/-- The comments found end before those wanted, or one of them goes on where the one wanted ends. -/
inductive Misses : List (List Char) → List (List Char) → Prop where
  | stop {wanted : List (List Char)} (h : wanted ≠ []) : Misses [] wanted
  | overrun (x : List Char) {c : Char} {y : List Char} (found : List (List Char)) {wanted : List (List Char)}
      (hc : c ≠ '\n') (h : wanted ≠ [] ∨ ∃ d ∈ c :: y, isBlank d = false) :
      Misses ((x ++ c :: y) :: found) (x :: wanted)
  | cons (x : List Char) {found wanted : List (List Char)} (h : Misses found wanted) :
      Misses (x :: found) (x :: wanted)

section Pieces

variable {rest : List Char} {gap : List Piece}

/-- Behind a run of blanks comes a comment, or the gap ends. -/
theorem Grammar.Cut.blanks {x : List Char} (h : Cut rest (.blanks x :: gap)) :
    (∀ c ∈ x, isSourceBlank c = true) ∧ (gap = [] ∨ ∃ y tail, gap = .remark y :: tail) := by
  obtain ⟨-, -, hblank, hhead⟩ := piece?_eq_blanks h.1
  refine ⟨hblank, ?_⟩
  cases gap with
  | nil => exact Or.inl rfl
  | cons p tail =>
    cases p with
    | remark y => exact Or.inr ⟨y, tail, rfl⟩
    | blanks y =>
      obtain ⟨-, hne, hy, -⟩ := piece?_eq_blanks h.2.1
      obtain ⟨c, y, rfl⟩ := List.exists_cons_of_ne_nil hne
      have hc := hhead c rfl
      rw [hy c List.mem_cons_self] at hc
      cases hc

theorem Grammar.Cut.remark {x : List Char} (h : Cut rest (.remark x :: gap)) :
    (∃ z, x = '/' :: '/' :: z ∧ (∀ c ∈ z, isLineText c = true) ∧
        ∀ c ∈ (gapText gap ++ rest).head?, isLineText c = false) ∨
      ∃ z, x = '/' :: '*' :: z ∧ blockTail (z ++ (gapText gap ++ rest)) = some (z, gapText gap ++ rest) :=
  comment_eq_some (piece?_eq_remark h.1)

theorem Grammar.Cut.remark_head {x : List Char} (h : Cut rest (.remark x :: gap)) : x.head? = some '/' := by
  rcases h.remark with ⟨z, rfl, -⟩ | ⟨z, rfl, -⟩ <;> rfl

/-- Behind a line comment comes a run of blanks, or the gap ends. -/
theorem Grammar.Cut.line {x : List Char} (h : Cut rest (.remark x :: gap))
    (hhead : ∀ c ∈ (gapText gap ++ rest).head?, isLineText c = false) :
    gap = [] ∨ ∃ y tail, gap = .blanks y :: tail := by
  cases gap with
  | nil => exact Or.inl rfl
  | cons p tail =>
    cases p with
    | blanks y => exact Or.inr ⟨y, tail, rfl⟩
    | remark y =>
      obtain ⟨c, y, rfl⟩ : ∃ c z, y = c :: z := List.exists_cons_of_ne_nil fun hnil => by
        simpa [hnil] using Cut.remark_head h.2
      obtain rfl : c = '/' := by simpa using Cut.remark_head h.2
      cases hhead '/' rfl

theorem remarks_head (h : Cut rest gap) : ∀ x ∈ remarks gap, x.head? = some '/' := by
  induction gap with
  | nil => simp
  | cons p gap ih =>
    cases p with
    | blanks x => exact ih h.2
    | remark x =>
      intro y hy
      rcases List.mem_cons.1 hy with rfl | hy
      · exact h.remark_head
      · exact ih h.2 y hy

theorem comments_sourceBlanks {x : List Char} (h : ∀ c ∈ x, isSourceBlank c = true) : comments x = [] := by
  by_cases hblank : ∀ c ∈ x, isBlank c = true
  · rw [← List.append_nil x, comments_blanks hblank]
    rfl
  · rw [← List.append_nil x, comments_hidden h (by simpa using hblank)]

theorem takeWhile_prefix_append (p : Char → Bool) (x y : List Char) :
    x.takeWhile p <+: (x ++ y).takeWhile p := by
  rw [List.takeWhile_append]
  split_ifs
  · exact (List.takeWhile_prefix p).trans (List.prefix_append x _)
  · exact List.prefix_rfl

/-- The scan of a line comment with blanks behind it. -/
theorem comments_line_blanks {z y : List Char} {tail : List Piece} (hz : ∀ c ∈ z, isLineText c = true)
    (h : Cut rest (.blanks y :: tail))
    (hmatch : Legible (.blanks y :: tail) → Matches (comments (y ++ gapText tail)) (remarks tail))
    (hmiss : ¬ Legible (.blanks y :: tail) → Misses (comments (y ++ gapText tail)) (remarks tail)) :
    (EndsLine (.blanks y :: tail) ∧ Legible (.blanks y :: tail) →
        Matches (comments ('/' :: '/' :: z ++ (y ++ gapText tail))) (('/' :: '/' :: z) :: remarks tail)) ∧
      (¬ (EndsLine (.blanks y :: tail) ∧ Legible (.blanks y :: tail)) →
        Misses (comments ('/' :: '/' :: z ++ (y ++ gapText tail))) (('/' :: '/' :: z) :: remarks tail)) := by
  obtain ⟨hsource, hnext⟩ := h.blanks
  obtain ⟨c, y, rfl⟩ := List.exists_cons_of_ne_nil (piece?_eq_blanks h.1).2.1
  rw [comments_line hz]
  by_cases hc : staysInLine c = true
  · -- the scan goes on behind the end of the line
    have hover : overrun (c :: y) ≠ [] := by simp [overrun, hc]
    by_cases hlast : remarks tail = [] ∧ ∀ d ∈ overrun (c :: y), isBlank d = true
    · obtain rfl | ⟨x, tail, rfl⟩ := hnext
      · have hrest : comments (((c :: y) ++ gapText []).dropWhile staysInLine) = [] := by
          apply comments_sourceBlanks
          intro d hd
          rw [gapText_nil, List.append_nil] at hd
          exact hsource d ((List.dropWhile_suffix _).subset hd)
        have hblank : ∀ d ∈ ((c :: y) ++ gapText []).takeWhile staysInLine, isBlank d = true := by
          rw [gapText_nil, List.append_nil]
          exact hlast.2
        rw [hrest]
        exact ⟨fun _ => .last _ hblank, fun hno => absurd ⟨Or.inr hlast, fun hne => absurd rfl hne, trivial⟩ hno⟩
      · simp at hlast
    · have htake : ((c :: y) ++ gapText tail).takeWhile staysInLine =
          c :: (y ++ gapText tail).takeWhile staysInLine := by simp [hc]
      have hne : c ≠ '\n' := by
        rintro rfl
        cases hc
      refine ⟨fun hl => absurd (hl.1.resolve_left hover) hlast, fun _ => ?_⟩
      rw [htake]
      refine .overrun _ _ hne ?_
      by_cases hnone : remarks tail = []
      · obtain ⟨d, hd, hblank⟩ : ∃ d ∈ overrun (c :: y), isBlank d = false := by
          by_contra hall
          exact hlast ⟨hnone, by simpa using hall⟩
        exact Or.inr ⟨d, htake ▸ (takeWhile_prefix_append _ _ _).subset hd, hblank⟩
      · exact Or.inl hnone
  · -- both readings end the comment here
    have hover : overrun (c :: y) = [] := by simp [overrun, hc]
    have htake : ((c :: y) ++ gapText tail).takeWhile staysInLine = [] := by simp [hc]
    have hdrop : ((c :: y) ++ gapText tail).dropWhile staysInLine = (c :: y) ++ gapText tail := by simp [hc]
    rw [htake, hdrop, List.append_nil]
    exact ⟨fun hl => .cons _ (hmatch hl.2), fun hno => .cons _ (hmiss fun hl => hno ⟨Or.inl hover, hl⟩)⟩

/-- The scan finds the comments of the grammar exactly in gaps that are legible. -/
theorem comments_gapText (h : Cut rest gap) :
    (Legible gap → Matches (comments (gapText gap)) (remarks gap)) ∧
      (¬ Legible gap → Misses (comments (gapText gap)) (remarks gap)) := by
  induction gap with
  | nil => exact ⟨fun _ => .nil, fun hno => absurd trivial hno⟩
  | cons p gap ih =>
    obtain ⟨hmatch, hmiss⟩ := ih h.2
    cases p with
    | blanks x =>
      obtain ⟨hsource, -⟩ := h.blanks
      rw [gapText_cons, remarks_blanks, Piece.text]
      by_cases hblank : ∀ c ∈ x, isBlank c = true
      · rw [comments_blanks hblank]
        exact ⟨fun hl => hmatch hl.2, fun hno => hmiss fun hl => hno ⟨fun _ => hblank, hl⟩⟩
      · -- the scan ends at a blank that it does not know, which matters if a comment follows
        rw [comments_hidden hsource (by simpa using hblank)]
        by_cases hnone : remarks gap = []
        · rw [hnone]
          refine ⟨fun _ => .nil, fun hno => ?_⟩
          obtain rfl | ⟨y, tail, rfl⟩ := h.blanks.2
          · exact absurd ⟨fun hne => absurd rfl hne, trivial⟩ hno
          · simp at hnone
        · exact ⟨fun hl => absurd (hl.1 hnone) hblank, fun _ => .stop hnone⟩
    | remark x =>
      rw [gapText_cons, remarks_remark, Piece.text]
      rcases h.remark with ⟨z, rfl, hz, hhead⟩ | ⟨z, rfl, hz⟩
      · have hlegible : Legible (.remark ('/' :: '/' :: z) :: gap) ↔ EndsLine gap ∧ Legible gap :=
          and_congr_left fun _ => forall_prop_of_true ⟨z, rfl⟩
        rw [hlegible]
        obtain rfl | ⟨y, tail, rfl⟩ := h.line hhead
        · rw [comments_line hz]
          exact ⟨fun _ => .last _ (by simp), fun hno => absurd ⟨trivial, trivial⟩ hno⟩
        · exact comments_line_blanks hz h.2 hmatch hmiss
      · rw [comments_block hz]
        have hblock : ¬ ['/', '/'] <+: '/' :: '*' :: z := by simp
        exact ⟨fun hl => .cons _ (hmatch hl.2), fun hno => .cons _ (hmiss fun hl =>
          hno ⟨fun hpre => absurd hpre hblock, hl⟩)⟩

end Pieces

/-- Comments one to a line. -/
def joined (xs : List (List Char)) : List Char := List.intercalate ['\n'] xs

/-- What the scan cuts out of a text are the texts of the comments. -/
theorem map_slice_commentSpansFrom (before budget cs : List Char) :
    (commentSpansFrom budget (byteLength before) cs).map (slice (before ++ cs)) = commentsWithin budget cs := by
  induction budget generalizing before cs with
  | nil => rfl
  | cons b budget ih =>
    rw [commentSpansFrom, commentsWithin]
    cases hread : triviaComment (cs.dropWhile isBlank) with
    | none => rfl
    | some q =>
      obtain ⟨x, rest⟩ := q
      -- the comment and what follows it, behind everything that was passed over
      have hcs : before ++ cs = (before ++ cs.takeWhile isBlank ++ x) ++ rest := by
        rw [List.append_assoc, ← (triviaComment_eq_append hread).1, List.append_assoc,
          List.takeWhile_append_dropWhile]
      have hstart : dropBytes? (before ++ cs) (byteLength before + byteLength (cs.takeWhile isBlank)) =
          some (x ++ rest) := by
        rw [hcs]
        exact dropBytes?_eq_some_iff.2 ⟨before ++ cs.takeWhile isBlank, List.append_assoc _ _ _, byteLength_append _ _⟩
      have hrest := ih (before ++ cs.takeWhile isBlank ++ x) rest
      rw [← hcs, byteLength_append, byteLength_append] at hrest
      simp only [List.map_cons, slice, slice?_eq_some hstart, Option.getD_some]
      exact congrArg (x :: ·) hrest

theorem commentText_eq_joined (cs : List Char) : commentText cs = trim (joined (comments cs)) := by
  have hslices : (commentSpans cs).map (slice cs) = comments cs := map_slice_commentSpansFrom [] cs cs
  rw [commentText, hslices, joined]

theorem joined_singleton (x : List Char) : joined [x] = x := List.intercalate_singleton

theorem joined_cons (x : List Char) {xs : List (List Char)} (h : xs ≠ []) :
    joined (x :: xs) = x ++ '\n' :: joined xs := by
  obtain ⟨y, ys, rfl⟩ := List.exists_cons_of_ne_nil h
  rw [joined, List.intercalate_cons_cons, List.append_assoc]
  rfl

theorem joined_head {xs : List (List Char)} (hne : xs ≠ []) (h : ∀ x ∈ xs, x.head? = some '/') :
    (joined xs).head? = some '/' := by
  obtain ⟨x, xs, rfl⟩ := List.exists_cons_of_ne_nil hne
  have hx := h x List.mem_cons_self
  cases xs with
  | nil => rwa [joined_singleton]
  | cons y ys => rw [joined_cons x (by simp), List.head?_append, hx, Option.some_or]

/-- A text that starts with a slash keeps what stands before its last blanks. -/
theorem trim_of_head {cs : List Char} (h : cs.head? = some '/') : trim cs = cs.rdropWhile isBlank := by
  cases cs with
  | nil => simp at h
  | cons c cs =>
    obtain rfl : c = '/' := by simpa using h
    rfl

theorem rdropWhile_append_of_mem {xs ys : List Char} (h : ∃ c ∈ ys, isBlank c = false) :
    (xs ++ ys).rdropWhile isBlank = xs ++ ys.rdropWhile isBlank := by
  have hne : ys.reverse.dropWhile isBlank ≠ [] := by
    rw [ne_eq, List.dropWhile_eq_nil_iff]
    obtain ⟨c, hc, hblank⟩ := h
    exact fun hall => by simp [hall c (List.mem_reverse.2 hc)] at hblank
  rw [List.rdropWhile, List.rdropWhile, List.reverse_append, List.dropWhile_append, if_neg (by simpa using hne),
    List.reverse_append, List.reverse_reverse]

theorem rdropWhile_ne_nil_of_head {cs : List Char} (h : cs.head? = some '/') : cs.rdropWhile isBlank ≠ [] := by
  cases cs with
  | nil => simp at h
  | cons c cs =>
    obtain rfl : c = '/' := by simpa using h
    rw [ne_eq, List.rdropWhile_eq_nil_iff]
    exact fun hall => absurd (hall '/' List.mem_cons_self) (by decide)

/-- What starts with a slash is not dropped, so everything before it stays too. -/
theorem rdropWhile_joined_cons {xs : List (List Char)} (hne : xs ≠ []) (hxs : ∀ x ∈ xs, x.head? = some '/')
    (x : List Char) :
    (joined (x :: xs)).rdropWhile isBlank = x ++ '\n' :: (joined xs).rdropWhile isBlank := by
  have hmem : ∃ c ∈ joined xs, isBlank c = false :=
    ⟨'/', List.mem_of_mem_head? (joined_head hne hxs), rfl⟩
  rw [joined_cons x hne, ← List.singleton_append, ← List.append_assoc, rdropWhile_append_of_mem hmem,
    List.append_assoc, List.singleton_append]

/-- Comments that match are the same text but for blanks at its end. -/
theorem Matches.joined {found wanted : List (List Char)} (h : Matches found wanted) :
    ∃ y, (∀ c ∈ y, isBlank c = true) ∧ joined found = joined wanted ++ y := by
  induction h with
  | nil => exact ⟨[], by simp, rfl⟩
  | last x h => exact ⟨_, h, by rw [joined_singleton, joined_singleton]⟩
  | @cons x found wanted h ih =>
    cases h with
    | nil => exact ⟨[], by simp, by simp⟩
    | _ =>
      obtain ⟨y, hy, heq⟩ := ih
      exact ⟨y, hy, by rw [joined_cons x (by simp), joined_cons x (by simp), heq, List.append_assoc, List.cons_append]⟩

/-- Comments that are missed leave another text. -/
theorem Misses.rdropWhile_ne {found wanted : List (List Char)} (h : Misses found wanted)
    (hfound : ∀ x ∈ found, x.head? = some '/') (hwanted : ∀ x ∈ wanted, x.head? = some '/') :
    (joined found).rdropWhile isBlank ≠ (joined wanted).rdropWhile isBlank := by
  have hshort (x : List Char) : (x.rdropWhile isBlank).length ≤ x.length :=
    (List.rdropWhile_prefix isBlank x).length_le
  induction h with
  | stop hne => exact (rdropWhile_ne_nil_of_head (joined_head hne hwanted)).symm
  | @overrun x c y found wanted hc hrest =>
    obtain ⟨v, hv⟩ : ∃ v, joined ((x ++ c :: y) :: found) = x ++ (c :: (y ++ v)) := by
      by_cases hnil : found = []
      · exact ⟨[], by rw [hnil, joined_singleton, List.append_nil]⟩
      · exact ⟨_, by rw [joined_cons _ hnil, List.append_assoc, List.cons_append]⟩
    rw [hv]
    by_cases hne : wanted = []
    · -- more is found than the comment, and not only blanks
      subst hne
      obtain ⟨d, hd, hblank⟩ := hrest.resolve_left (by simp)
      have hmem : ∃ d ∈ c :: (y ++ v), isBlank d = false :=
        ⟨d, List.mem_append_left v hd, hblank⟩
      have hpos : (c :: (y ++ v)).rdropWhile isBlank ≠ [] := fun hnil => by
        simp [List.rdropWhile_eq_nil_iff.1 hnil d (List.mem_append_left v hd)] at hblank
      rw [rdropWhile_append_of_mem hmem, joined_singleton]
      intro heq
      have hlength := congrArg List.length heq
      have hle := hshort x
      have hlt := List.length_pos_iff.2 hpos
      rw [List.length_append] at hlength
      omega
    · -- the grammar goes on with the next comment on a line of its own
      rw [rdropWhile_joined_cons hne fun z hz => hwanted z (List.mem_cons_of_mem x hz)]
      intro heq
      have hpre := List.rdropWhile_prefix isBlank (x ++ c :: (y ++ v))
      rw [heq, List.prefix_append_right_inj, List.cons_prefix_cons] at hpre
      exact hc hpre.1.symm
  | @cons x found wanted h ih =>
    have hne : wanted ≠ [] := by cases h <;> simp_all
    have hwanted' : ∀ y ∈ wanted, y.head? = some '/' := fun y hy => hwanted y (List.mem_cons_of_mem x hy)
    have hfound' : ∀ y ∈ found, y.head? = some '/' := fun y hy => hfound y (List.mem_cons_of_mem x hy)
    rw [rdropWhile_joined_cons hne hwanted' x]
    by_cases hnil : found = []
    · -- another comment is wanted, so the wanted text is longer
      subst hnil
      rw [joined_singleton]
      intro heq
      have hlength := congrArg List.length heq
      have hle := hshort x
      simp only [List.length_append, List.length_cons] at hlength
      omega
    · rw [rdropWhile_joined_cons hnil hfound' x]
      intro heq
      exact ih hfound' hwanted' (List.cons.inj (List.append_cancel_left heq)).2

theorem Misses.trim_ne {found wanted : List (List Char)} (h : Misses found wanted)
    (hfound : ∀ x ∈ found, x.head? = some '/') (hwanted : ∀ x ∈ wanted, x.head? = some '/') :
    trim (joined found) ≠ trim (joined wanted) := by
  have htrim {xs : List (List Char)} (hxs : ∀ x ∈ xs, x.head? = some '/') :
      trim (joined xs) = (joined xs).rdropWhile isBlank := by
    by_cases hnil : xs = []
    · rw [hnil]
      rfl
    · exact trim_of_head (joined_head hnil hxs)
  rw [htrim hfound, htrim hwanted]
  exact h.rdropWhile_ne hfound hwanted

section Gaps

variable {rest : List Char} {gap : List Piece}

/-- The comment before a member is the text of the grammar's comments exactly if the gap is legible. -/
theorem commentText_eq_iff (h : Cut rest gap) :
    commentText (gapText gap) = trim (joined (remarks gap)) ↔ Legible gap := by
  constructor
  · intro heq
    by_contra hno
    rw [commentText_eq_joined] at heq
    exact ((comments_gapText h).2 hno).trim_ne (comments_head _) (remarks_head h) heq
  · intro hlegible
    obtain ⟨y, hy, heq⟩ := ((comments_gapText h).1 hlegible).joined
    rw [commentText_eq_joined, heq, trim_append_blanks hy]

theorem commentText_eq_nil_iff {cs : List Char} : commentText cs = [] ↔ comments cs = [] := by
  constructor
  · intro hnil
    by_contra hne
    have hhead := joined_head hne (comments_head cs)
    rw [commentText_eq_joined, trim_of_head hhead] at hnil
    exact rdropWhile_ne_nil_of_head hhead hnil
  · intro hnil
    rw [commentText_eq_joined, hnil]
    rfl

/-- There is no comment before a member exactly if the grammar finds none, or the scan ends before the first. -/
theorem commentText_gapText_eq_nil_iff (h : Cut rest gap) :
    commentText (gapText gap) = [] ↔ remarks gap = [] ∨ Hidden gap := by
  have hremark {x : List Char} {tail : List Piece} (h : Cut rest (.remark x :: tail)) :
      comments (gapText (.remark x :: tail)) ≠ [] := by
    rw [gapText_cons, Piece.text]
    rcases h.remark with ⟨z, rfl, hz, -⟩ | ⟨z, rfl, hz⟩
    · rw [comments_line hz]
      exact List.cons_ne_nil _ _
    · rw [comments_block hz]
      exact List.cons_ne_nil _ _
  rw [commentText_eq_nil_iff]
  cases gap with
  | nil => exact iff_of_true rfl (Or.inl rfl)
  | cons p gap =>
    cases p with
    | remark x => exact iff_of_false (hremark h) (by simp [Hidden])
    | blanks x =>
      obtain ⟨hsource, hnext⟩ := h.blanks
      by_cases hblank : ∀ c ∈ x, isBlank c = true
      · have hseen : ¬ Hidden (.blanks x :: gap) := by
          rintro ⟨c, hc, hno⟩
          simp [hblank c hc] at hno
        rw [gapText_cons, Piece.text, comments_blanks hblank, remarks_blanks, or_iff_left hseen]
        obtain rfl | ⟨y, tail, rfl⟩ := hnext
        · exact iff_of_true rfl rfl
        · exact iff_of_false (hremark h.2) (by simp)
      · have hhidden : Hidden (.blanks x :: gap) := by simpa [Hidden] using hblank
        exact iff_of_true (comments_hidden hsource hhidden _) (Or.inr hhidden)

end Gaps

end SignatureDocs
