import SignatureDocs.Proofs.Grammar.Naming
import SignatureDocs.Proofs.Grammar.Signs

/-!
The braces of a text that is read. A plain text is made of words, marks and comments from a small alphabet, and its
balance is the number of braces that it opens more than it closes. What a rule does to the balance of the text that is
left can be computed from the rule. For a phrase the answer stands in a table, and the rules of the grammar have to
confirm the table.
-/
namespace SignatureDocs.Grammar

open SignatureDocs.Text Reader

variable {P : Type} {source : List Char}

/-- What plain texts are made of: words, which start with a capital or also with a small letter, marks, and comments, of
which the last may be cut off. -/
structure Alphabet where
  small : Bool
  marks : List Char
  cut : Bool
  marks_subset : marks ⊆ ['(', ')', ',', ':', ';', '?', '\x7b', '\x7d']

/-- Does a word start with the character? -/
def Alphabet.isStart (a : Alphabet) (c : Char) : Bool := c.isUpper || a.small && c.isLower

/-- What a character adds to the balance of braces. -/
def weight (c : Char) : Int := if c = '\x7b' then 1 else if c = '\x7d' then -1 else 0

/-- The start of a comment that is cut off before its end. -/
def IsOpenRemark (cs : List Char) : Prop := cs ≠ [] ∧ ∃ x, IsRemark x ∧ cs <+: '/' :: '*' :: (x ++ ['*'])

/-- The text is plain and has the given balance. -/
inductive Plain (a : Alphabet) : Int → List Char → Prop
  | nil : Plain a 0 []
  | cut {cs : List Char} (ha : a.cut = true) (h : IsOpenRemark cs) : Plain a 0 cs
  | blank {n : Int} {c : Char} {cs : List Char} (hc : c = ' ' ∨ c = '\n') (h : Plain a n cs) : Plain a n (c :: cs)
  | mark {n : Int} {c : Char} {cs : List Char} (hc : c ∈ a.marks) (h : Plain a n cs) :
      Plain a (weight c + n) (c :: cs)
  | word {n : Int} {c : Char} {w cs : List Char} (hc : a.isStart c = true) (hw : ∀ x ∈ w, isWordChar x = true)
      (hcs : breaksWord cs = true) (h : Plain a n cs) : Plain a n (c :: (w ++ cs))
  | remark {n : Int} {x cs : List Char} (hx : IsRemark x) (h : Plain a n cs) :
      Plain a n ('/' :: '*' :: (x ++ '*' :: '/' :: cs))

/-- What is skipped between lexemes starts with a blank or with the slash of a comment. -/
def startsGap (c : Char) : Bool := isSourceBlank c || c == '/'

instance starts_blanks : Starts startsGap (run1 isSourceBlank) where
  starts {cs x rest} h := by
    cases cs with
    | nil => simp [run1] at h
    | cons c cs =>
      by_cases hc : isSourceBlank c = true
      · simp only [run1, List.takeWhile_cons_of_pos hc, Option.some.injEq, Prod.mk.injEq] at h
        exact ⟨c, _, h.1.symm, by simp [startsGap, hc]⟩
      · simp [run1, hc] at h

instance starts_comment : Starts startsGap comment where
  starts {cs x rest} h := by
    unfold comment at h
    split at h
    · obtain ⟨y, -, heq⟩ := Option.map_eq_some_iff.mp h
      exact ⟨'/', _, (Prod.mk.inj heq).1.symm, rfl⟩
    · obtain ⟨y, -, heq⟩ := Option.map_eq_some_iff.mp h
      exact ⟨'/', _, (Prod.mk.inj heq).1.symm, rfl⟩
    · simp at h

theorem IsOpenRemark.eq_cons {cs : List Char} (h : IsOpenRemark cs) : ∃ ys, cs = '/' :: ys := by
  obtain ⟨hne, x, -, hcs⟩ := h
  obtain ⟨c, ys, rfl⟩ := List.exists_cons_of_ne_nil hne
  obtain ⟨rfl, -⟩ := List.cons_prefix_cons.mp hcs
  exact ⟨ys, rfl⟩

/-- A comment ends nowhere before its end. -/
theorem blockTail_eq_none {x cs : List Char} (hx : IsRemark x) (h : cs <+: x ++ ['*']) : blockTail cs = none := by
  induction cs generalizing x with
  | nil => rfl
  | cons c cs ih =>
    cases x with
    | nil =>
      obtain ⟨rfl, hnil⟩ := List.cons_prefix_cons.mp h
      obtain rfl := List.prefix_nil.mp hnil
      rfl
    | cons y x =>
      obtain ⟨rfl, hcs⟩ := List.cons_prefix_cons.mp h
      have hstar : ∀ ys, c = '*' → cs ≠ '/' :: ys := by
        rintro ys rfl rfl
        cases x with
        | nil => simp at hcs
        | cons z x =>
          obtain ⟨rfl, -⟩ := List.cons_prefix_cons.mp hcs
          exact hx.unclosed ⟨[], x, rfl⟩
      rw [blockTail.eq_3 _ _ hstar, ih hx.tail hcs]
      simp

theorem IsOpenRemark.comment_eq_none {cs : List Char} (h : IsOpenRemark cs) : comment cs = none := by
  obtain ⟨ys, rfl⟩ := h.eq_cons
  obtain ⟨-, x, hx, hcs⟩ := h
  cases ys with
  | nil => rfl
  | cons c ys =>
    obtain ⟨rfl, hys⟩ := List.cons_prefix_cons.mp (List.cons_prefix_cons.mp hcs).2
    simp [comment, blockTail_eq_none hx hys]

theorem Alphabet.not_isWordStart_of_mark {a : Alphabet} {c : Char} (hc : c ∈ a.marks) :
    isWordStart c = false ∧ isSourceBlank c = false ∧ c ≠ '/' ∧ c ≠ '\\' := by
  have hmem := a.marks_subset hc
  fin_cases hmem <;> decide

theorem Alphabet.isAlpha_of_isStart {a : Alphabet} {c : Char} (hc : a.isStart c = true) : c.isAlpha = true := by
  simp only [isStart, Bool.or_eq_true, Bool.and_eq_true] at hc
  rcases hc with hc | ⟨-, hc⟩ <;> simp [Char.isAlpha, hc]

theorem Alphabet.isWordStart_of_isStart {a : Alphabet} {c : Char} (hc : a.isStart c = true) :
    isWordStart c = true := by
  have halpha := isAlpha_of_isStart hc
  have hword : isWordChar c = true := isWordChar_of_isAlphanum (by simp [Char.isAlphanum, halpha])
  have hdigit : c.isDigit = false := by
    simp [Char.isAlpha, Char.isUpper, Char.isLower, Char.isDigit, UInt32.le_iff_toNat_le] at halpha ⊢
    omega
  simp [isWordStart, hword, hdigit]

theorem Alphabet.not_isSourceBlank_of_start {a : Alphabet} {c : Char} (hc : a.isStart c = true) :
    isSourceBlank c = false ∧ c ≠ '/' := by
  have hstart := isWordStart_of_isStart hc
  constructor
  · simp only [isWordStart, isWordChar, Bool.and_eq_true, Bool.not_eq_true'] at hstart
    exact hstart.1.1.2
  · rintro rfl
    exact absurd hstart (by decide)

namespace Plain

variable {a : Alphabet} {n : Int} {c : Char} {cs x rest : List Char}

theorem head_cases (h : Plain a n (c :: cs)) :
    c ∈ a.marks ∨ a.isStart c = true ∨ c = ' ' ∨ c = '\n' ∨ c = '/' := by
  cases h with
  | cut _ h =>
    obtain ⟨ys, hys⟩ := h.eq_cons
    simp [(List.cons.inj hys).1]
  | blank hblank _ => exact .inr (.inr (hblank.imp_right .inl))
  | mark hmark _ => exact .inl hmark
  | word hstart _ _ _ => exact .inr (.inl hstart)
  | remark _ _ => simp

theorem of_blank (hc : isSourceBlank c = true) (h : Plain a n (c :: cs)) : Plain a n cs := by
  cases h with
  | cut _ h =>
    obtain ⟨ys, hys⟩ := h.eq_cons
    obtain ⟨rfl, -⟩ := List.cons.inj hys
    exact absurd hc (by decide)
  | blank _ h => exact h
  | mark hmark _ => simp [(Alphabet.not_isWordStart_of_mark hmark).2.1] at hc
  | word hstart _ _ _ => simp [(Alphabet.not_isSourceBlank_of_start hstart).1] at hc
  | remark _ _ => exact absurd hc (by decide)

theorem of_mark (hc : c ∈ a.marks) (h : Plain a n (c :: cs)) : Plain a (n - weight c) cs := by
  have hmark := Alphabet.not_isWordStart_of_mark hc
  cases h with
  | cut _ h =>
    obtain ⟨ys, hys⟩ := h.eq_cons
    exact absurd (List.cons.inj hys).1 hmark.2.2.1
  | blank hblank _ => rcases hblank with rfl | rfl <;> exact absurd hmark.2.1 (by decide)
  | mark _ h => simpa using h
  | word hstart _ _ _ => simp [Alphabet.isWordStart_of_isStart hstart] at hmark
  | remark _ _ => exact absurd rfl hmark.2.2.1

/-- A word of a plain text is read as a whole. -/
theorem of_word (h : Plain a n cs) (hword : Grammar.word cs = some (x, rest)) : Plain a n rest := by
  obtain ⟨c, y, rfl, hc⟩ := starts_word.starts hword
  have hcs : cs = c :: (y ++ rest) := Splits.eq_append hword
  simp only [Bool.or_eq_true, decide_eq_true_eq] at hc
  cases h with
  | nil => simp at hcs
  | cut _ h =>
    obtain ⟨ys, rfl⟩ := h.eq_cons
    obtain ⟨rfl, -⟩ := List.cons.inj hcs
    exact absurd hc (by decide)
  | blank hblank _ =>
    obtain ⟨rfl, -⟩ := List.cons.inj hcs
    rcases hblank with rfl | rfl <;> exact absurd hc (by decide)
  | mark hmark _ =>
    obtain ⟨rfl, -⟩ := List.cons.inj hcs
    have hnot := Alphabet.not_isWordStart_of_mark hmark
    simp [hnot] at hc
  | word hstart hw hbreak h =>
    rw [word_append (Alphabet.isWordStart_of_isStart hstart) hw hbreak] at hword
    rwa [← (Prod.mk.inj (Option.some.inj hword)).2]
  | remark _ _ =>
    obtain ⟨rfl, -⟩ := List.cons.inj hcs
    exact absurd hc (by decide)

theorem of_comment (h : Plain a n cs) (hcomment : comment cs = some (x, rest)) : Plain a n rest := by
  have hslash : cs.head? = some '/' := by
    unfold comment at hcomment
    split at hcomment <;> simp_all
  cases h with
  | nil => simp at hslash
  | cut _ h => simp [h.comment_eq_none] at hcomment
  | blank hblank _ =>
    obtain rfl := Option.some.inj hslash
    exact absurd hblank (by decide)
  | mark hmark _ => exact absurd (Option.some.inj hslash) (Alphabet.not_isWordStart_of_mark hmark).2.2.1
  | word hstart _ _ _ => exact absurd (Option.some.inj hslash) (Alphabet.not_isSourceBlank_of_start hstart).2
  | remark hx h =>
    simp only [comment, blockTail_append hx, Option.map_some, Option.some.injEq, Prod.mk.injEq] at hcomment
    rwa [← hcomment.2]

theorem of_run1 (h : Plain a n cs) (hrun : run1 isSourceBlank cs = some (x, rest)) : Plain a n rest := by
  -- the blanks go one by one, so what is left is plain wherever the run stops
  have hdrop : Plain a n (cs.dropWhile isSourceBlank) := by
    clear hrun
    induction cs with
    | nil => exact h
    | cons c cs ih =>
      by_cases hc : isSourceBlank c = true
      · rw [List.dropWhile_cons_of_pos hc]
        exact ih (h.of_blank hc)
      · rwa [List.dropWhile_cons_of_neg hc]
  unfold run1 at hrun
  split at hrun
  · simp at hrun
  · simp only [Option.some.injEq, Prod.mk.injEq] at hrun
    rwa [← hrun.2]

/-- A text without braces is balanced. -/
theorem eq_zero (hcs : ∀ c ∈ cs, weight c = 0) (h : Plain a n cs) : n = 0 := by
  induction h with
  | nil | cut => rfl
  | blank _ _ ih => exact ih fun c hc => hcs c (List.mem_cons_of_mem _ hc)
  | mark _ _ ih =>
    rw [hcs _ List.mem_cons_self, ih fun c hc => hcs c (List.mem_cons_of_mem _ hc), Int.add_zero]
  | word _ _ _ _ ih => exact ih fun c hc => hcs c (List.mem_cons_of_mem _ (List.mem_append_right _ hc))
  | remark _ _ ih => exact ih fun c hc => hcs c (by simp [hc])

theorem breaksWord_of_append (h : breaksWord (x ++ rest) = true) : breaksWord x = true := by
  cases x with
  | nil => rfl
  | cons c x => exact h

/-- What a plain text starts with is plain, if the cut may be inside a comment or no comment is there. -/
theorem of_append (h : Plain a n (x ++ rest)) (hx : a.cut = true ∨ '/' ∉ x) : ∃ m, Plain a m x := by
  have hbehind {y : Char} {x : List Char} (hx : a.cut = true ∨ '/' ∉ y :: x) : a.cut = true ∨ '/' ∉ x :=
    hx.imp_right fun hno hmem => hno (List.mem_cons_of_mem y hmem)
  generalize htext : x ++ rest = cs at h
  induction h generalizing x with
  | nil =>
    obtain ⟨rfl, -⟩ := List.append_eq_nil_iff.mp htext
    exact ⟨0, .nil⟩
  | cut ha h =>
    by_cases hne : x = []
    · exact ⟨0, hne ▸ .nil⟩
    · obtain ⟨-, y, hy, hcs⟩ := h
      exact ⟨0, .cut ha ⟨hne, y, hy, (List.prefix_append x rest).trans (htext ▸ hcs)⟩⟩
  | blank hc h ih =>
    cases x with
    | nil => exact ⟨0, .nil⟩
    | cons y x =>
      obtain ⟨rfl, htail⟩ := List.cons.inj htext
      obtain ⟨m, hm⟩ := ih (hbehind hx) htail
      exact ⟨m, .blank hc hm⟩
  | mark hc h ih =>
    cases x with
    | nil => exact ⟨0, .nil⟩
    | cons y x =>
      obtain ⟨rfl, htail⟩ := List.cons.inj htext
      obtain ⟨m, hm⟩ := ih (hbehind hx) htail
      exact ⟨_, .mark hc hm⟩
  | @word _ c w cs hc hw hcs h ih =>
    cases x with
    | nil => exact ⟨0, .nil⟩
    | cons y x =>
      obtain ⟨rfl, htail⟩ := List.cons.inj htext
      rcases List.append_eq_append_iff.mp htail with ⟨v, rfl, -⟩ | ⟨v, rfl, rfl⟩
      · -- the cut is in the word
        have hword : Plain a 0 (y :: (x ++ [])) :=
          .word hc (fun z hz => hw z (List.mem_append_left v hz)) rfl .nil
        exact ⟨0, by rwa [List.append_nil] at hword⟩
      · have hv : a.cut = true ∨ '/' ∉ v :=
          (hbehind hx).imp_right fun hno hmem => hno (List.mem_append_right w hmem)
        obtain ⟨m, hm⟩ := ih hv rfl
        exact ⟨m, .word hc hw (breaksWord_of_append hcs) hm⟩
  | @remark _ y cs hy h ih =>
    by_cases hne : x = []
    · exact ⟨0, hne ▸ .nil⟩
    have ha : a.cut = true := by
      refine hx.resolve_right fun hno => hno ?_
      obtain ⟨z, x, rfl⟩ := List.exists_cons_of_ne_nil hne
      obtain ⟨rfl, -⟩ := List.cons.inj htext
      exact List.mem_cons_self
    have hsplit : x ++ rest = '/' :: '*' :: (y ++ ['*']) ++ '/' :: cs := by simpa using htext
    rcases List.append_eq_append_iff.mp hsplit with ⟨v, hv, -⟩ | ⟨v, rfl, hv⟩
    · -- the cut is in the comment
      exact ⟨0, .cut ha ⟨hne, y, hy, v, hv.symm⟩⟩
    · cases v with
      | nil => exact ⟨0, .cut ha ⟨hne, y, hy, by simp⟩⟩
      | cons z v =>
        obtain ⟨rfl, hcs⟩ := List.cons.inj hv
        obtain ⟨m, hm⟩ := ih (.inl ha) hcs.symm
        exact ⟨m, by simpa using Plain.remark hy hm⟩

theorem skipGap? {l l' : Located} (h : Plain a n l.text) (hskip : l.skipGap? = some l') : Plain a n l'.text := by
  obtain ⟨x, rest, hread, rfl⟩ := Located.skip?_eq_some hskip
  unfold orElse at hread
  split at hread
  · next hrun => exact h.of_run1 (hrun.trans hread)
  · exact h.of_comment hread

theorem skipGaps {l : Located} (budget : List Char) (h : Plain a n l.text) :
    Plain a n (Located.skipGaps budget l).text := by
  induction budget generalizing l with
  | nil => exact h
  | cons b budget ih =>
    unfold Located.skipGaps
    cases hskip : l.skipGap? with
    | none => exact h
    | some l' => exact ih (h.skipGap? hskip)

theorem lineEnd? {l l' : Located} {binary : Bool} (budget : List Char) (h : Plain a n l.text)
    (hend : Located.lineEnd? binary budget l = some l') : Plain a n l'.text := by
  induction budget generalizing l with
  | nil =>
    simp only [Located.lineEnd?, Option.ite_none_right_eq_some, Option.some.injEq] at hend
    rwa [← hend.2]
  | cons b budget ih =>
    unfold Located.lineEnd? at hend
    split at hend
    · rwa [← Option.some.inj hend]
    · obtain ⟨l₂, hcomment, hrest⟩ := Option.bind_eq_some_iff.mp hend
      have hblank : Plain a n ((l.skip? (run1 isSourceBlank)).getD l).text := by
        cases hs : l.skip? (run1 isSourceBlank) with
        | none => exact h
        | some l₁ =>
          obtain ⟨x, rest, hrun, rfl⟩ := Located.skip?_eq_some hs
          exact h.of_run1 hrun
      obtain ⟨x, rest, hread, rfl⟩ := Located.skip?_eq_some hcomment
      exact ih (hblank.of_comment hread) hrest

end Plain

/-- One step through a gap takes some of the text. -/
theorem Located.skipGap?_lt {l l' : Located} (h : l.skipGap? = some l') : l'.text.length < l.text.length := by
  obtain ⟨x, rest, hread, rfl⟩ := Located.skip?_eq_some h
  obtain ⟨c, y, rfl, -⟩ := (starts_orElse startsGap _ _).starts hread
  rw [Splits.eq_append hread]
  simp

/-- A gap is skipped to its end if the budget is as long as the text. -/
theorem Located.skipGaps_skipGap? {l : Located} (budget : List Char) (hlen : l.text.length ≤ budget.length) :
    (Located.skipGaps budget l).skipGap? = none := by
  cases hskip : l.skipGap? with
  | none =>
    cases budget with
    | nil => exact hskip
    | cons b budget =>
      rw [Located.skipGaps, hskip]
      exact hskip
  | some l' =>
    have hlt := Located.skipGap?_lt hskip
    cases budget with
    | nil =>
      rw [List.length_nil] at hlen
      omega
    | cons b budget =>
      rw [List.length_cons] at hlen
      rw [Located.skipGaps, hskip]
      exact Located.skipGaps_skipGap? budget (by omega)

/-- Does a lexeme of a plain text start with the character? -/
def Alphabet.isFirst (a : Alphabet) (c : Char) : Bool := a.marks.contains c || a.isStart c || a.cut && c == '/'

/-- The letters of words in plain texts. -/
def letters : List Char :=
  ['A', 'B', 'C', 'D', 'E', 'F', 'G', 'H', 'I', 'J', 'K', 'L', 'M', 'N', 'O', 'P', 'Q', 'R',
    'S', 'T', 'U', 'V', 'W', 'X', 'Y', 'Z', 'a', 'b', 'c', 'd', 'e', 'f', 'g', 'h', 'i', 'j',
    'k', 'l', 'm', 'n', 'o', 'p', 'q', 'r', 's', 't', 'u', 'v', 'w', 'x', 'y', 'z']

theorem mem_letters {c : Char} (h : c.isAlpha = true) : c ∈ letters := by
  have hn : 65 ≤ c.toNat ∧ c.toNat ≤ 90 ∨ 97 ≤ c.toNat ∧ c.toNat ≤ 122 := by
    simpa [Char.isAlpha, Char.isUpper, Char.isLower, UInt32.le_iff_toNat_le] using h
  rw [← Char.ofNat_toNat c]
  generalize c.toNat = n at hn
  rcases hn with ⟨hlo, hhi⟩ | ⟨hlo, hhi⟩ <;> interval_cases n <;> decide

/-- The characters with which lexemes of a plain text start. -/
def Alphabet.firsts (a : Alphabet) : List Char :=
  a.marks ++ (letters.filter a.isStart ++ if a.cut then ['/'] else [])

theorem Alphabet.mem_firsts {a : Alphabet} {c : Char} (hc : a.isFirst c = true) : c ∈ a.firsts := by
  simp only [isFirst, Bool.or_eq_true, List.contains_iff_mem, Bool.and_eq_true, beq_iff_eq] at hc
  simp only [firsts, List.mem_append, List.mem_filter]
  rcases hc with (hc | hc) | ⟨ha, rfl⟩
  · exact .inl hc
  · exact .inr (.inl ⟨mem_letters (isAlpha_of_isStart hc), hc⟩)
  · simp [ha]

/-- Of the characters that can come next, only those that are said to do so start a word. -/
theorem Alphabet.isStart_of_isFirst {a : Alphabet} {c : Char} (hc : a.isFirst c = true)
    (hword : (isWordStart c || c = '\\') = true) : a.isStart c = true := by
  simp only [isFirst, Bool.or_eq_true, List.contains_iff_mem, Bool.and_eq_true, beq_iff_eq] at hc
  rcases hc with (hc | hc) | ⟨-, rfl⟩
  · have hmark := not_isWordStart_of_mark hc
    simp [hmark] at hword
  · exact hc
  · exact absurd hword (by decide)

theorem Plain.head_mem {a : Alphabet} {n : Int} {l : Located} (h : Plain a n l.text)
    (hstop : l.skipGap? = none) : ∀ c ∈ l.text.head?, a.isFirst c = true := by
  obtain ⟨cs, offset⟩ := l
  have hnone : run1 isSourceBlank cs = none ∧ comment cs = none := by
    simp only [Located.skipGap?, Located.skip?, Option.map_eq_none_iff, orElse] at hstop
    split at hstop
    · simp at hstop
    · next hrun => exact ⟨hrun, hstop⟩
  intro c hc
  cases h with
  | nil => simp at hc
  | cut ha h =>
    obtain ⟨ys, rfl⟩ := h.eq_cons
    obtain rfl := Option.some.inj hc
    simp [Alphabet.isFirst, ha]
  | blank hblank _ =>
    have hrun := hnone.1
    rcases hblank with rfl | rfl <;> simp [run1, isSourceBlank, isAsciiBlank] at hrun
  | mark hmark _ =>
    obtain rfl := Option.some.inj hc
    simp [Alphabet.isFirst, hmark]
  | word hstart _ _ _ =>
    obtain rfl := Option.some.inj hc
    simp [Alphabet.isFirst, hstart]
  | remark hx _ => simp [comment, blockTail_append hx] at hnone

/-- What comes next in a plain text is plain and starts a lexeme. -/
theorem Plain.next {a : Alphabet} {n : Int} {l : Located} (h : Plain a n l.text) :
    Plain a n l.next.text ∧ ∀ c ∈ l.next.text.head?, a.isFirst c = true := by
  have hplain := h.skipGaps l.text
  exact ⟨hplain, hplain.head_mem (Located.skipGaps_skipGap? l.text (Nat.le_refl _))⟩

/-- What reading does to the balance of the text that is left, as far as it is known. -/
inductive Effect where
  /-- Nothing is ever accepted. -/
  | never
  | shifts (amount : Int)
  | unknown
deriving DecidableEq

namespace Effect

/-- What the effect says about the text that is left of a plain text. -/
def Holds (a : Alphabet) (n : Int) (cs : List Char) : Effect → Prop
  | never => False
  | shifts k => Plain a (n + k) cs
  | unknown => True

/-- One after the other. -/
def andThen : Effect → Effect → Effect
  | never, _ | shifts _, never => never
  | shifts j, shifts k => shifts (j + k)
  | unknown, _ | shifts _, unknown => unknown

/-- One or the other. -/
def orElse : Effect → Effect → Effect
  | never, e | e, never => e
  | shifts j, shifts k => if j = k then shifts j else unknown
  | unknown, _ | _, unknown => unknown

/-- Any number of times. -/
def repeated : Effect → Effect
  | never => shifts 0
  | shifts k => if k = 0 then shifts 0 else unknown
  | unknown => unknown

variable {a : Alphabet} {n : Int} {cs mid : List Char} {e e' : Effect}

theorem Holds.andThen (h : e.Holds a n mid) (h' : ∀ m, Plain a m mid → e'.Holds a m cs) :
    (e.andThen e').Holds a n cs := by
  cases e with
  | never => exact h.elim
  | unknown => trivial
  | shifts j =>
    have hnext := h' _ h
    cases e' with
    | never => exact hnext
    | unknown => trivial
    | shifts k => rwa [Holds, Int.add_assoc] at hnext

theorem Holds.orElse_left (h : e.Holds a n cs) (e' : Effect) : (e.orElse e').Holds a n cs := by
  cases e with
  | never => exact h.elim
  | unknown => cases e' <;> trivial
  | shifts j =>
    cases e' with
    | never => exact h
    | unknown => trivial
    | shifts k =>
      rw [Effect.orElse]
      split
      · exact h
      · trivial

theorem Holds.orElse_right (e : Effect) (h : e'.Holds a n cs) : (e.orElse e').Holds a n cs := by
  cases e with
  | never => cases e' <;> exact h
  | unknown => cases e' <;> trivial
  | shifts j =>
    cases e' with
    | never => exact h.elim
    | unknown => trivial
    | shifts k =>
      rw [Effect.orElse]
      split
      · next heq => rwa [heq]
      · trivial

theorem holds_repeated (e : Effect) (h : Plain a n cs) : e.repeated.Holds a n cs := by
  have hzero : Plain a (n + 0) cs := by rwa [Int.add_zero]
  cases e with
  | never => exact hzero
  | unknown => trivial
  | shifts k =>
    rw [repeated]
    split
    · exact hzero
    · trivial

/-- A repeated effect takes in one more round. -/
theorem Holds.repeated (h : e.Holds a n mid) (h' : ∀ m, Plain a m mid → e.repeated.Holds a m cs) :
    e.repeated.Holds a n cs := by
  cases e with
  | never => exact h.elim
  | unknown => trivial
  | shifts k =>
    by_cases hk : k = 0
    · subst hk
      have hmid : Plain a n mid := by rwa [Holds, Int.add_zero] at h
      exact h' n hmid
    · simp [Effect.repeated, hk, Holds]

end Effect

namespace Alphabet

variable (a : Alphabet)

/-- The effect of reading a mark. It is never read if a plain text cannot go on with one of its characters. -/
def markEffect : List Char → Effect
  | [] => .shifts 0
  | c :: cs =>
    if c ∈ a.marks then (Effect.shifts (-weight c)).andThen (markEffect cs)
    else if a.isStart c = true ∨ c = ' ' ∨ c = '\n' ∨ c = '/' then .unknown
    else .never

/-- The effect of reading a mark behind a gap. -/
def openingEffect (text : List Char) : Effect :=
  if text.head?.all a.isFirst then a.markEffect text else .never

/-- The effect of a token. -/
def tokenEffect : Token → Effect
  | .mark text _ => a.openingEffect text
  | .oneOf ops => (ops.map a.openingEffect).foldr Effect.orElse .never
  | .keyword text => if text.head?.any a.isStart then .shifts 0 else .never
  | .word _ | .lineEnd _ | .sameLine _ | .closing _ | .finish => .shifts 0
  | t => if t.isLexeme && a.firsts.all fun c => !t.canStart c then .never else .unknown

end Alphabet

section

variable {a : Alphabet} {n : Int} {c c' : Cursor}

theorem Plain.markEffect {text rest : List Char} (h : Plain a n (text ++ rest)) :
    (a.markEffect text).Holds a n rest := by
  induction text generalizing n with
  | nil => rwa [Alphabet.markEffect, Effect.Holds, Int.add_zero]
  | cons c text ih =>
    rw [Alphabet.markEffect]
    split
    · next hc =>
      have hstep : (Effect.shifts (-weight c)).Holds a n (text ++ rest) := h.of_mark hc
      exact hstep.andThen fun m hm => ih hm
    · next hmark =>
      split
      · trivial
      · next hother =>
        exact hother (h.head_cases.resolve_left hmark)

theorem Effect.holds_foldr {es : List Effect} {e : Effect} {cs : List Char} (he : e ∈ es) (h : e.Holds a n cs) :
    (es.foldr Effect.orElse .never).Holds a n cs := by
  induction es with
  | nil => simp at he
  | cons e' es ih =>
    rcases List.mem_cons.mp he with rfl | he
    · exact h.orElse_left _
    · exact .orElse_right _ (ih he)

theorem Plain.openingEffect {text rest : List Char} (h : Plain a n (text ++ rest))
    (hfirst : ∀ c ∈ (text ++ rest).head?, a.isFirst c = true) : (a.openingEffect text).Holds a n rest := by
  rw [Alphabet.openingEffect]
  split
  · exact h.markEffect
  · next hno =>
    cases text with
    | nil => simp at hno
    | cons c text => simp [hfirst c (by simp)] at hno

theorem Plain.tokenEffect {t : Token} (hc : c.On source) (h : Plain a n c.last.text)
    (hread : t.read? c = some c') : (a.tokenEffect t).Holds a n c'.last.text := by
  have hcursor : c.next = c.last.next := congrArg Cursor.next hc.eq_after
  obtain ⟨hnext, hfirst⟩ := h.next
  rw [← hcursor] at hnext hfirst
  have hidle (ht : t.isIdle = true) : (Effect.shifts 0).Holds a n c'.last.text := by
    rwa [Token.read?_idle ht hread, Effect.Holds, Int.add_zero]
  -- a lexeme that is neither a mark nor a word is known by its first character only
  have hother : Effect.Holds a n c'.last.text
      (if t.isLexeme && a.firsts.all fun c => !t.canStart c then .never else .unknown) := by
    split
    · next hno =>
      rw [Bool.and_eq_true, List.all_eq_true] at hno
      obtain ⟨x, y, rest, htext, hstart, -⟩ := Token.read?_eq_cons hno.1 hread
      have hx := hno.2 x (Alphabet.mem_firsts (hfirst x (by simp [htext])))
      simp [hstart] at hx
    · trivial
  cases t with
  | lineEnd binary | sameLine binary | finish => exact hidle rfl
  | closing binary =>
    obtain ⟨l, hl, rfl⟩ := Option.map_eq_some_iff.mp hread
    rw [Alphabet.tokenEffect, Effect.Holds, Int.add_zero]
    exact h.lineEnd? _ hl
  | mark text stops =>
    obtain ⟨x, rest, hx, rfl⟩ := Cursor.read?_eq_some hread
    obtain ⟨rfl, htext⟩ := exactly_eq_some (Option.filter_eq_some_iff.mp hx).1
    rw [htext] at hnext hfirst
    exact hnext.openingEffect hfirst
  | oneOf ops =>
    obtain ⟨x, rest, hx, rfl⟩ := Cursor.read?_eq_some hread
    have hmem : x ∈ ops := by simpa using (Option.filter_eq_some_iff.mp hx).2
    rw [Splits.eq_append hx] at hnext hfirst
    exact Effect.holds_foldr (List.mem_map_of_mem hmem) (hnext.openingEffect hfirst)
  | keyword text =>
    obtain ⟨x, rest, hx, rfl⟩ := Cursor.read?_eq_some hread
    obtain ⟨hword, hkeep⟩ := Option.filter_eq_some_iff.mp hx
    obtain rfl : x = text := by simpa using hkeep
    rw [Alphabet.tokenEffect]
    split
    · rw [Effect.Holds, Int.add_zero]
      exact hnext.of_word hword
    · next hno =>
      obtain ⟨y, w, rfl, hstart⟩ := starts_word.starts hword
      have hy := Alphabet.isStart_of_isFirst (hfirst y (by simp [Splits.eq_append hword])) hstart
      simp [hy] at hno
  | word except =>
    obtain ⟨x, rest, hx, rfl⟩ := Cursor.read?_eq_some hread
    rw [Alphabet.tokenEffect, Effect.Holds, Int.add_zero]
    exact hnext.of_word (Option.filter_eq_some_iff.mp hx).1
  | _ => exact hother

end

/-- The effect of a rule, with a table of effects for the phrases in it. -/
def Rule.effect (a : Alphabet) (table : P → Effect) : Rule P → Effect
  | token t => a.tokenEffect t
  | phrase p => table p
  | nothing | ahead _ | absent _ => .shifts 0
  | both r s => (r.effect a table).andThen (s.effect a table)
  | either r s => (r.effect a table).orElse (s.effect a table)
  | many r => (r.effect a table).repeated
  | node _ r => r.effect a table

/-- The rules of a grammar have no other effects than the table says. -/
def Alphabet.Confirms (a : Alphabet) (grammar : P → Rule P) (table : P → Effect) : Prop :=
  ∀ p, table p = .unknown ∨ ((grammar p).effect a table).orElse (table p) = table p

/-- Reading a plain text by a rule has the effect of the rule. -/
theorem Rule.Accepts.effect {a : Alphabet} {grammar : P → Rule P} {table : P → Effect}
    (htable : a.Confirms grammar table) {rule : Rule P} {c c' : Cursor} {ts : List Tree}
    (h : rule.Accepts grammar c ts c') (hc : c.On source) {n : Int} (hplain : Plain a n c.last.text) :
    (rule.effect a table).Holds a n c'.last.text := by
  have hstays {c : Cursor} {n : Int} (hplain : Plain a n c.last.text) :
      (Effect.shifts 0).Holds a n c.last.text := by
    rwa [Effect.Holds, Int.add_zero]
  -- by induction on the reading: what the table says of a phrase is at hand for the phrases in its rule
  induction h generalizing n with
  | token hread => exact hplain.tokenEffect hc hread
  | @phrase p _ _ _ _ ih =>
    rw [Rule.effect]
    rcases htable p with hunknown | hconfirms
    · rw [hunknown]
      trivial
    · rw [← hconfirms]
      exact (ih hc hplain).orElse_left _
  | nothing | ahead | absent => exact hstays hplain
  | both ha _ iha ihb => exact (iha hc hplain).andThen fun m hm => ihb (ha.on hc) hm
  | left _ ih => exact (ih hc hplain).orElse_left _
  | right _ ih => exact .orElse_right _ (ih hc hplain)
  | manyNil => exact Effect.holds_repeated _ hplain
  | manyCons ha _ _ iha ihb => exact (iha hc hplain).repeated fun m hm => ihb (ha.on hc) hm
  | node _ ih => exact ih hc hplain

/-- The alphabet of files in which every comment is closed. -/
def fileAlphabet : Alphabet where
  small := true
  marks := ['(', ')', ',', ':', ';', '?', '\x7b', '\x7d']
  cut := false
  marks_subset := List.Subset.refl _

/-- Phrases leave the balance as it is; those that start with a mark that no plain text has are never read. -/
def fileEffect : Phrase → Effect
  | .typeArguments | .typeParameters | .template | .markup | .decorator => .never
  | _ => .shifts 0

theorem fileEffect_confirmed (d : Dialect) : fileAlphabet.Confirms (rules d) fileEffect := by
  have htypeScript : fileAlphabet.Confirms (rules .typeScript) fileEffect := by
    intro p
    cases p with
    | typeExpr line | typeOperand line | typeElement line | callSignature line | block line =>
      cases line <;> decide +kernel
    | expression s | operand s | unary s | atom s | suffix s | expressions s =>
      obtain ⟨line, typed, head⟩ := s
      cases line <;> cases typed <;> cases head <;> decide +kernel
    | _ => decide +kernel
  cases d with
  | typeScript => exact htypeScript
  | tsx =>
    -- the dialects differ in two phrases
    intro p
    cases p with
    | unary s | atom s =>
      obtain ⟨line, typed, head⟩ := s
      cases line <;> cases typed <;> cases head <;> decide +kernel
    | _ => exact htypeScript _

/-- A plain file that is read closes as many braces as it opens. -/
theorem readFile_balanced {d : Dialect} {ts : List Tree} {c : Cursor} {r : Reach} {n : Int}
    (h : readFile d source = .accepted ts c r) (hplain : Plain fileAlphabet n source) : n = 0 := by
  have haccepts := Rule.accepts_of_read _ h
  have heffect : program.effect fileAlphabet fileEffect = .shifts 0 := by decide +kernel
  have hlast := haccepts.effect (fileEffect_confirmed d) (Cursor.On.start source) hplain
  rw [heffect, Effect.Holds, Int.add_zero] at hlast
  -- the last thing that is read is the end of the text
  have hempty : c.next.text = [] := by
    cases haccepts with
    | both _ h => cases h with
      | both _ h => cases h with
        | token hread =>
          obtain rfl := Token.read?_idle rfl hread
          simpa [Token.read?] using hread
  have hcursor : c.next = c.last.next := congrArg Cursor.next (haccepts.on (Cursor.On.start source)).eq_after
  have hnext := hlast.next.1
  rw [← hcursor, hempty] at hnext
  cases hnext with
  | nil => rfl
  | cut hcut _ => simp [fileAlphabet] at hcut

/-- A rule that accepts no plain text refuses it. -/
theorem refuses_of_never {d : Dialect} {a : Alphabet} {table : Phrase → Effect} (htable : a.Confirms (rules d) table)
    {rule : Form} (hnever : rule.effect a table = .never) (hfit : rule.fit profile = true)
    (hranked : rule.ranked profile height 400 = true) {c : Cursor} (hc : c.On source) {n : Int}
    (hplain : Plain a n c.last.text) : Refuses (rules d) rule c := by
  -- reading comes to an end, and the effect leaves only one
  have hends := Rule.read_ne_exhausted (profile_holds d) (fun p => (height_holds d p).1)
    (fun p => (height_holds d p).2) _ hfit hranked hc (Nat.le_refl _)
  cases hread : Rule.read (rules d) (rule.rank height + 400 * c.last.text.length) rule c with
  | accepted ts c' r =>
    have heffect := (Rule.accepts_of_read _ hread).effect htable hc hplain
    rw [hnever] at heffect
    exact heffect.elim
  | refused r => exact ⟨_, r, hread⟩
  | exhausted => exact absurd hread hends

end SignatureDocs.Grammar
