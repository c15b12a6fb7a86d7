import SignatureDocs.Proofs.Grammar.Scan

/-!
The signs that a written text shows. A word or mark with blanks or a comment before it is the next lexeme there,
and a line ends before it where the text between has a line feed.
-/
namespace SignatureDocs.Grammar

open SignatureDocs.Text Reader

variable {source : List Char}

/-- Where the rest of a source starts. -/
def place (source rest : List Char) : Nat := byteLength source - byteLength rest

/-- The cursor before the rest of a source. -/
def Cursor.before (source rest : List Char) : Cursor := .after ⟨rest, place source rest⟩

theorem place_add {x rest : List Char} (hs : x ++ rest <:+ source) :
    place source (x ++ rest) + byteLength x = place source rest := by
  obtain ⟨pre, rfl⟩ := hs
  simp only [place, byteLength_append]
  omega

theorem place_lt {x rest : List Char} (hs : x ++ rest <:+ source) (hx : x ≠ []) :
    place source (x ++ rest) < place source rest := by
  have hadd := place_add hs
  have hpos := byteLength_pos hx
  omega

theorem dropBytes?_place {rest : List Char} (hs : rest <:+ source) :
    dropBytes? source (place source rest) = some rest := by
  obtain ⟨pre, rfl⟩ := hs
  apply dropBytes?_eq_some_iff.mpr
  refine ⟨pre, rfl, ?_⟩
  rw [place, byteLength_append]
  omega

theorem Cursor.On.before {rest : List Char} (hs : rest <:+ source) : (Cursor.before source rest).On source :=
  .after (dropBytes?_place hs)

theorem slice_place {x rest : List Char} (hs : x ++ rest <:+ source) :
    slice source ⟨place source (x ++ rest), place source rest⟩ = x := by
  rw [slice, ← place_add hs, slice?_eq_some (dropBytes?_place hs), Option.getD_some]

/-- The text does not go on with a word. -/
def breaksWord (rest : List Char) : Bool := rest.head?.all fun c => !isWordChar c && c != '\\'

theorem run1_append {p : Char → Bool} {xs rest : List Char} (hne : xs ≠ []) (hxs : ∀ c ∈ xs, p c = true)
    (hrest : ∀ c ∈ rest.head?, p c = false) : run1 p (xs ++ rest) = some (xs, rest) := by
  have htake : rest.takeWhile p = [] ∧ rest.dropWhile p = rest := by
    cases rest with
    | nil => exact ⟨rfl, rfl⟩
    | cons c rest =>
      have hc : p c = false := hrest c (by simp)
      exact ⟨by simp [hc], by simp [hc]⟩
  unfold run1
  rw [List.takeWhile_append_of_pos hxs, List.dropWhile_append_of_pos hxs, htake.1, htake.2,
    List.append_nil]
  cases xs with
  | nil => exact absurd rfl hne
  | cons c xs => rfl

theorem run1_eq_none {p : Char → Bool} {rest : List Char} (hrest : ∀ c ∈ rest.head?, p c = false) :
    run1 p rest = none := by
  cases rest with
  | nil => rfl
  | cons c rest => simp [run1, hrest c (by simp)]

/-- No more of a word is read where it breaks off. -/
theorem wordPiece_eq_none {rest : List Char} (h : breaksWord rest = true) :
    orElse (run1 isWordChar) codePointEscape rest = none := by
  cases rest with
  | nil => rfl
  | cons c rest =>
    simp only [breaksWord, List.head?_cons, Option.all_some, Bool.and_eq_true, Bool.not_eq_true',
      bne_iff_ne] at h
    have hrun : run1 isWordChar (c :: rest) = none := run1_eq_none (by simpa using h.1)
    have hescape : codePointEscape (c :: rest) = none := by
      have hne : ¬ '\\' = c := fun hc => h.2 hc.symm
      simp [codePointEscape, orElse, andThen, exactly, hne]
    simp [orElse, hrun, hescape]

theorem upTo_of_none {r : Reader} {cs : List Char} (h : r cs = none) (budget : List Char) :
    upTo r budget cs = ([], cs) := by
  cases budget with
  | nil => rfl
  | cons b budget => simp [upTo, h]

theorem upTo_of_some {r : Reader} {cs x rest : List Char} (h : r cs = some (x, rest)) (b : Char)
    (budget : List Char) : (upTo r (b :: budget) cs).2 = (upTo r budget rest).2 := by
  simp [upTo, h]

theorem word_append {c : Char} {cs rest : List Char} (hc : isWordStart c = true)
    (hcs : ∀ x ∈ cs, isWordChar x = true) (hrest : breaksWord rest = true) :
    word (c :: (cs ++ rest)) = some (c :: cs, rest) := by
  have hstop := wordPiece_eq_none hrest
  have hmany : many (orElse (run1 isWordChar) codePointEscape) (cs ++ rest) = (cs, rest) := by
    cases cs with
    | nil => exact upTo_of_none hstop _
    | cons x cs =>
      have hbreak : ∀ c ∈ rest.head?, isWordChar c = false := by
        intro c hc
        simp only [breaksWord, Option.mem_def.mp hc, Option.all_some, Bool.and_eq_true,
          Bool.not_eq_true'] at hrest
        exact hrest.1
      have hrun := run1_append (List.cons_ne_nil x cs) hcs hbreak
      rw [many, List.cons_append, upTo]
      simp only [← List.cons_append, orElse, hrun]
      rw [upTo_of_none hstop]
      simp
  simp [word, andThen, orElse, char, hc, hmany]

/-- The text of a block comment: it neither ends the comment nor has a null character. -/
structure IsRemark (text : List Char) : Prop where
  unclosed : ¬ ['*', '/'] <:+: text
  textual : '\x00' ∉ text

theorem IsRemark.tail {c : Char} {text : List Char} (h : IsRemark (c :: text)) : IsRemark text :=
  ⟨fun hin => h.unclosed (List.infix_cons hin), fun hin => h.textual (List.mem_cons_of_mem c hin)⟩

theorem blockTail_append {text : List Char} (h : IsRemark text) (rest : List Char) :
    blockTail (text ++ '*' :: '/' :: rest) = some (text ++ ['*', '/'], rest) := by
  induction text with
  | nil => rfl
  | cons c text ih =>
    have hc : isText c = true := by
      simp only [isText, bne_iff_ne]
      rintro rfl
      exact h.textual List.mem_cons_self
    -- a star at the end of the comment is not followed by its own slash
    have hstar : ∀ cs, c = '*' → text ++ '*' :: '/' :: rest ≠ '/' :: cs := by
      rintro cs rfl heq
      cases text with
      | nil => simp at heq
      | cons x text =>
        obtain ⟨rfl, -⟩ := List.cons.inj heq
        exact h.unclosed ⟨[], text, rfl⟩
    rw [List.cons_append, blockTail.eq_3 _ _ (by simpa using hstar), if_pos hc, ih h.tail]
    rfl

/-- The text starts with a lexeme, or is at its end. -/
def leads (text : List Char) : Bool :=
  text.head?.all fun c => !isSourceBlank c && c != '/' && c != '\x00'

theorem leads_cons {c : Char} {rest : List Char} (h : leads (c :: rest) = true) :
    isSourceBlank c = false ∧ c ≠ '/' ∧ c ≠ '\x00' := by
  simp only [leads, List.head?_cons, Option.all_some, Bool.and_eq_true, Bool.not_eq_true',
    bne_iff_ne] at h
  exact ⟨h.1.1, h.1.2, h.2⟩

theorem isAsciiBlank_of_not_isSourceBlank {c : Char} (h : isSourceBlank c = false) :
    isAsciiBlank c = false := by
  simp only [isSourceBlank, Bool.or_eq_false_iff] at h
  exact h.1.1.1.1.1.1

/-- The text between two lexemes: what comes behind it is the next lexeme, and it says whether a line ends before
that, if the lexeme can start a line. -/
structure IsGap (gap : List Char) (line : Bool) : Prop where
  next : ∀ text offset, leads text = true →
    Located.next ⟨gap ++ text, offset⟩ = ⟨text, offset + byteLength gap⟩
  ends : line = true → ∀ text offset binary, leads text = true → startsAfresh binary text = true →
    Located.lineEnd? binary (gap ++ text) ⟨gap ++ text, offset⟩ = some ⟨gap ++ text, offset⟩
  goesOn : line = false → ∀ c rest offset binary, leads (c :: rest) = true → c ≠ '\x7d' →
    Located.lineEnd? binary (gap ++ c :: rest) ⟨gap ++ c :: rest, offset⟩ = none

theorem comment_eq_none {text : List Char} (h : leads text = true) : comment text = none := by
  cases text with
  | nil => rfl
  | cons c rest =>
    have hc := (leads_cons h).2.1
    unfold comment
    split <;> simp_all

theorem skipGap?_eq_none {text : List Char} (h : leads text = true) (offset : Nat) :
    Located.skipGap? ⟨text, offset⟩ = none := by
  have hrun : run1 isSourceBlank text = none := by
    apply run1_eq_none
    cases text with
    | nil => simp
    | cons c rest => simpa using (leads_cons h).1
  simp [Located.skipGap?, Located.skip?, orElse, hrun, comment_eq_none h]

theorem skipGaps_leads {text : List Char} (h : leads text = true) (budget : List Char) (offset : Nat) :
    Located.skipGaps budget ⟨text, offset⟩ = ⟨text, offset⟩ := by
  cases budget with
  | nil => rfl
  | cons b budget => simp [Located.skipGaps, skipGap?_eq_none h]

theorem skipGaps_blank {c : Char} {text : List Char} (hc : isSourceBlank c = true)
    (htext : ∀ x ∈ text.head?, isSourceBlank x = false) (b : Char) (budget : List Char) (offset : Nat) :
    Located.skipGaps (b :: budget) ⟨c :: text, offset⟩ =
      Located.skipGaps budget ⟨text, offset + byteLength [c]⟩ := by
  have hrun : run1 isSourceBlank ([c] ++ text) = some ([c], text) :=
    run1_append (by simp) (by simpa using hc) htext
  rw [List.singleton_append] at hrun
  simp [Located.skipGaps, Located.skipGap?, Located.skip?, orElse, hrun]

theorem skipGaps_comment {text : List Char} (h : IsRemark text) (rest : List Char) (b : Char)
    (budget : List Char) (offset : Nat) :
    Located.skipGaps (b :: budget) ⟨'/' :: '*' :: (text ++ '*' :: '/' :: rest), offset⟩ =
      Located.skipGaps budget ⟨rest, offset + byteLength ('/' :: '*' :: (text ++ ['*', '/']))⟩ := by
  have hrun : run1 isSourceBlank ('/' :: '*' :: (text ++ '*' :: '/' :: rest)) = none :=
    run1_eq_none (by rintro c ⟨⟩; rfl)
  simp [Located.skipGaps, Located.skipGap?, Located.skip?, orElse, hrun, comment, blockTail_append h]

theorem endsHere_eq_false {gap : List Char} (hgap : ∀ x ∈ gap, x = ' ') {c : Char} {rest : List Char}
    (h : leads (c :: rest) = true) (hc : c ≠ '\x7d') (binary : Bool) :
    endsHere binary (gap ++ c :: rest) = false := by
  obtain ⟨hblank, -, hnull⟩ := leads_cons h
  have hascii := isAsciiBlank_of_not_isSourceBlank hblank
  have hdrop : (gap ++ c :: rest).dropWhile (fun c => isAsciiBlank c && c != '\n') = c :: rest := by
    rw [List.dropWhile_append_of_pos, List.dropWhile_cons_of_neg]
    · simp [hascii]
    · intro x hx
      rw [hgap x hx]
      rfl
  have hline : c ≠ '\n' := by
    rintro rfl
    exact absurd hascii (by decide)
  unfold endsHere
  rw [hdrop]
  split <;> simp_all

/-- Where the text goes on behind blanks of the same line, no semicolon is left out. -/
theorem lineEnd?_eq_none {gap : List Char} (hgap : ∀ x ∈ gap, x = ' ') {c : Char} {rest : List Char}
    (h : leads (c :: rest) = true) (hc : c ≠ '\x7d') (binary : Bool) (offset : Nat) :
    Located.lineEnd? binary (gap ++ c :: rest) ⟨gap ++ c :: rest, offset⟩ = none := by
  have hends := endsHere_eq_false hgap h hc binary
  have hrest : ∀ x ∈ (c :: rest).head?, isSourceBlank x = false := by
    simpa using (leads_cons h).1
  cases gap with
  | nil =>
    rw [List.nil_append] at hends ⊢
    simp [Located.lineEnd?, hends, Located.skip?, run1_eq_none hrest, comment_eq_none h]
  | cons x gap =>
    have hblank : ∀ y ∈ x :: gap, isSourceBlank y = true := by
      intro y hy
      rw [hgap y hy]
      rfl
    have hrun := run1_append (List.cons_ne_nil x gap) hblank hrest
    rw [List.cons_append] at hends hrun ⊢
    simp [Located.lineEnd?, hends, Located.skip?, hrun, comment_eq_none h]

theorem isGap_nil : IsGap [] false where
  next text offset h := skipGaps_leads h _ _
  ends := by simp
  goesOn _ c rest offset binary h hc := lineEnd?_eq_none (by simp) h hc binary offset

theorem isGap_space : IsGap [' '] false where
  next text offset h := by
    rw [List.singleton_append, Located.next, skipGaps_blank rfl, skipGaps_leads h]
    cases text with
    | nil => simp
    | cons c rest => simpa using (leads_cons h).1
  ends := by simp
  goesOn _ c rest offset binary h hc := lineEnd?_eq_none (by simp) h hc binary offset

theorem loosePiece_eq_none {text : List Char} (h : leads text = true) :
    orElse (run1 isAsciiBlank) looseComment text = none := by
  cases text with
  | nil => rfl
  | cons c rest =>
    obtain ⟨hblank, hslash, -⟩ := leads_cons h
    have hrun : run1 isAsciiBlank (c :: rest) = none :=
      run1_eq_none (by simpa using isAsciiBlank_of_not_isSourceBlank hblank)
    have hcomment : looseComment (c :: rest) = none := by
      unfold looseComment
      split <;> simp_all
    simp [orElse, hrun, hcomment]

theorem dropLooseGaps_leads {text : List Char} (h : leads text = true) : dropLooseGaps text = text := by
  rw [dropLooseGaps, many, upTo_of_none (loosePiece_eq_none h)]

theorem lineEnd?_line {text : List Char} (binary : Bool) (offset : Nat)
    (h : startsAfresh binary (dropLooseGaps text) = true) :
    Located.lineEnd? binary ('\n' :: text) ⟨'\n' :: text, offset⟩ = some ⟨'\n' :: text, offset⟩ := by
  have hends : endsHere binary ('\n' :: text) = true := by
    simpa [endsHere, isAsciiBlank] using h
  simp [Located.lineEnd?, hends]

theorem isGap_line : IsGap ['\n'] true where
  next text offset h := by
    rw [List.singleton_append, Located.next, skipGaps_blank rfl, skipGaps_leads h]
    cases text with
    | nil => simp
    | cons c rest => simpa using (leads_cons h).1
  ends _ text offset binary h hfresh := by
    rw [List.singleton_append]
    exact lineEnd?_line binary offset (by rwa [dropLooseGaps_leads h])
  goesOn := by simp

/-- A comment on lines of its own. -/
def remarkGap (text : List Char) : List Char := '\n' :: '/' :: '*' :: (text ++ ['*', '/', '\n'])

theorem remarkGap_append (text rest : List Char) :
    remarkGap text ++ rest = '\n' :: '/' :: '*' :: (text ++ '*' :: '/' :: '\n' :: rest) := by
  simp [remarkGap]

theorem dropLooseGaps_comment {text rest : List Char} (h : IsRemark text) (hrest : leads rest = true) :
    dropLooseGaps ('/' :: '*' :: (text ++ '*' :: '/' :: '\n' :: rest)) = rest := by
  have hcomment : orElse (run1 isAsciiBlank) looseComment
      ('/' :: '*' :: (text ++ '*' :: '/' :: '\n' :: rest)) =
        some ('/' :: '*' :: (text ++ ['*', '/']), '\n' :: rest) := by
    have hrun : run1 isAsciiBlank ('/' :: '*' :: (text ++ '*' :: '/' :: '\n' :: rest)) = none :=
      run1_eq_none (by rintro c ⟨⟩; rfl)
    simp [orElse, hrun, looseComment, blockTail_append h]
  have hline : orElse (run1 isAsciiBlank) looseComment ('\n' :: rest) = some (['\n'], rest) := by
    have hrun : run1 isAsciiBlank (['\n'] ++ rest) = some (['\n'], rest) := by
      apply run1_append (by simp) (by simp [isAsciiBlank])
      cases rest with
      | nil => simp
      | cons c rest => simpa using isAsciiBlank_of_not_isSourceBlank (leads_cons hrest).1
    rw [List.singleton_append] at hrun
    simp [orElse, hrun]
  rw [dropLooseGaps, many, upTo_of_some hcomment, upTo_of_some hline,
    upTo_of_none (loosePiece_eq_none hrest)]

theorem isGap_remark {text : List Char} (h : IsRemark text) : IsGap (remarkGap text) true where
  next rest offset hrest := by
    have hblank : ∀ x ∈ rest.head?, isSourceBlank x = false := by
      cases rest with
      | nil => simp
      | cons c rest => simpa using (leads_cons hrest).1
    obtain ⟨b, budget, hb⟩ : ∃ b budget, text ++ '*' :: '/' :: '\n' :: rest = b :: budget :=
      List.exists_cons_of_ne_nil (by simp)
    rw [remarkGap_append, Located.next]
    dsimp only
    rw [skipGaps_blank rfl (by rintro c ⟨⟩; rfl), skipGaps_comment h]
    nth_rewrite 1 [hb]
    rw [skipGaps_blank rfl hblank, skipGaps_leads hrest]
    simp only [remarkGap, byteLength_cons, byteLength_append, byteLength_nil]
    congr 1
    omega
  ends _ rest offset binary hrest hfresh := by
    rw [remarkGap_append]
    exact lineEnd?_line binary offset (by rwa [dropLooseGaps_comment h hrest])
  goesOn := by simp

theorem mem_capitals {c : Char} (h : c.isUpper = true) : c ∈ "ABCDEFGHIJKLMNOPQRSTUVWXYZ".toList := by
  have hn : 65 ≤ c.toNat ∧ c.toNat ≤ 90 := by
    simpa [Char.isUpper, UInt32.le_iff_toNat_le] using h
  rw [← Char.ofNat_toNat c]
  generalize c.toNat = n at hn
  obtain ⟨hlo, hhi⟩ := hn
  interval_cases n <;> decide

theorem isWordChar_of_isAlphanum {c : Char} (h : c.isAlphanum = true) : isWordChar c = true := by
  have hn : (65 ≤ c.toNat ∧ c.toNat ≤ 90 ∨ 97 ≤ c.toNat ∧ c.toNat ≤ 122) ∨
      48 ≤ c.toNat ∧ c.toNat ≤ 57 := by
    simpa [Char.isAlphanum, Char.isAlpha, Char.isUpper, Char.isLower, Char.isDigit,
      UInt32.le_iff_toNat_le] using h
  rw [← Char.ofNat_toNat c]
  generalize c.toNat = n at hn
  rcases hn with (⟨hlo, hhi⟩ | ⟨hlo, hhi⟩) | ⟨hlo, hhi⟩ <;> interval_cases n <;> decide

theorem isWordStart_of_isUpper {c : Char} (h : c.isUpper = true) : isWordStart c = true := by
  have hword : isWordChar c = true :=
    isWordChar_of_isAlphanum (by simp [Char.isAlphanum, Char.isAlpha, h])
  have hdigit : c.isDigit = false := by
    simp [Char.isUpper, Char.isDigit, UInt32.le_iff_toNat_le] at h ⊢
    omega
  simp [isWordStart, hword, hdigit]

variable {P : Type} {grammar : P → Rule P}

/-- Can the text follow a gap of which `line` tells whether a line ends in it? -/
def standsOn (line : Bool) (text : List Char) : Bool :=
  if line then startsAfresh true text && startsAfresh false text else text.head?.any (· != '\x7d')

/-- What is common to all signs that a cursor can show: how the lexeme starts and whether a line ends before. -/
structure Sign.Seen (s : Sign P) (c : Cursor) : Prop where
  after : c = .after c.last
  first : ∀ fs, s.lexeme.firsts = some fs → ∀ x ∈ c.next.text.head?, x ∈ fs
  nonempty : s.lexeme ≠ .finish → s.lexeme ≠ .unknown → c.next.text ≠ []
  line : ∀ binary, c.lineEnd? binary = if s.line then some c.last else none

/-- A token that cannot start as the text does refuses. -/
theorem Sign.Seen.read?_eq_none {s : Sign P} {c : Cursor} {t : Token} (h : s.Seen c)
    (ht : t.isLexeme = true) (hfirst : s.lexeme.firsts.any (·.all fun c => !t.canStart c) = true) :
    t.read? c = none := by
  cases hread : t.read? c with
  | none => rfl
  | some c' =>
    obtain ⟨a, x, rest, htext, hstart, -⟩ := Token.read?_eq_cons ht hread
    cases hfs : s.lexeme.firsts with
    | none => simp [hfs] at hfirst
    | some fs =>
      have ha : a ∈ fs := h.first fs hfs a (by simp [htext])
      rw [hfs, Option.any_some, List.all_eq_true] at hfirst
      have hno := hfirst a ha
      simp [hstart] at hno

theorem Sign.Seen.shows {s : Sign P} {c c' : Cursor} {ts : List Tree} (h : s.Seen c)
    (hlexeme : s.phrase = none → ∀ t v, t.isLexeme = true → s.lexeme.verdict? s.spaced t = some v →
      v.Holds t c c')
    (hphrase : ∀ p, s.phrase = some p → Takes grammar (.phrase p) c ts c' ∧
      c.last.offset < c'.last.offset) : s.Shows grammar c ts c' := by
  refine ⟨fun t v hv => ?_, hphrase⟩
  have hline (binary : Bool) := h.line binary
  -- a token that asks for a lexeme is judged by the first character, then by the whole lexeme
  have htoken (hv : (if !t.isLexeme then none
      else if s.lexeme.firsts.any (·.all fun c => !t.canStart c) then some Verdict.refuses
      else if s.phrase.isSome then none else s.lexeme.verdict? s.spaced t) = some v) :
      v.Holds t c c' := by
    split at hv
    · simp at hv
    · next ht =>
      have ht' : t.isLexeme = true := by simpa using ht
      split at hv
      · next hfirst =>
        obtain rfl := Option.some.inj hv
        exact h.read?_eq_none ht' hfirst
      · split at hv
        · simp at hv
        · next hp => exact hlexeme (by simpa using hp) t v ht' hv
  cases t with
  | lineEnd binary | sameLine binary =>
    cases hl : s.line <;> simp only [Sign.verdict?, hl, if_true, Bool.false_eq_true, if_false] at hv <;>
      obtain rfl := Option.some.inj hv <;> simp [Verdict.Holds, Token.read?, hline, hl]
  | closing binary =>
    cases hl : s.line <;> simp only [Sign.verdict?, hl, if_true, Bool.false_eq_true, if_false] at hv <;>
      obtain rfl := Option.some.inj hv <;> simp [Verdict.Holds, Token.read?, hline, hl, ← h.after]
  | finish =>
    cases hl : s.lexeme with
    | finish =>
      simp only [Sign.verdict?, hl, Option.some.injEq] at hv
      have hempty : c.next.text = [] := by
        have hfirst := h.first [] (by rw [hl]; rfl)
        cases htext : c.next.text with
        | nil => rfl
        | cons x rest => simp [htext] at hfirst
      simp [← hv, Verdict.Holds, Token.read?, hempty]
    | unknown => simp [Sign.verdict?, hl] at hv
    | _ =>
      simp only [Sign.verdict?, hl, Option.some.injEq] at hv
      have hne := h.nonempty (by simp [hl]) (by simp [hl])
      simp [← hv, Verdict.Holds, Token.read?, hne]
  | _ => exact htoken hv

section

variable {gap text x rest : List Char} {line : Bool}

theorem Cursor.before_next (hgap : IsGap gap line) (hlead : leads text = true)
    (hs : gap ++ text <:+ source) :
    (Cursor.before source (gap ++ text)).next = ⟨text, place source text⟩ := by
  rw [Cursor.before, Cursor.after, hgap.next text _ hlead, place_add hs]

theorem Cursor.before_read? (hgap : IsGap gap line) (hlead : leads (x ++ rest) = true)
    (hs : gap ++ (x ++ rest) <:+ source) {r : Reader} (hr : r (x ++ rest) = some (x, rest)) :
    (Cursor.before source (gap ++ (x ++ rest))).read? r = some (Cursor.before source rest) := by
  rw [Cursor.read?, Cursor.before_next hgap hlead hs, Located.skip?, hr]
  simp only [Option.map_some, place_add ((List.suffix_append gap _).trans hs)]
  rfl

theorem Cursor.before_read?_eq_none (hgap : IsGap gap line) (hlead : leads text = true)
    (hs : gap ++ text <:+ source) {r : Reader} (hr : r text = none) :
    (Cursor.before source (gap ++ text)).read? r = none := by
  rw [Cursor.read?, Cursor.before_next hgap hlead hs, Located.skip?, hr]
  rfl

theorem Cursor.before_lt (hs : gap ++ (x ++ rest) <:+ source) (hx : x ≠ []) :
    (Cursor.before source (gap ++ (x ++ rest))).last.offset < (Cursor.before source rest).last.offset := by
  rw [← List.append_assoc] at hs ⊢
  exact place_lt hs (by simp [hx])

theorem Sign.seen_before {s : Sign P} (hgap : IsGap gap s.line) (hlead : leads text = true)
    (hstands : standsOn s.line text = true) (hs : gap ++ text <:+ source)
    (hfirst : ∀ fs, s.lexeme.firsts = some fs → ∀ a ∈ text.head?, a ∈ fs)
    (hne : s.lexeme ≠ .finish → s.lexeme ≠ .unknown → text ≠ []) :
    s.Seen (Cursor.before source (gap ++ text)) := by
  refine ⟨rfl, ?_, ?_, fun binary => ?_⟩
  · rwa [Cursor.before_next hgap hlead hs]
  · rwa [Cursor.before_next hgap hlead hs]
  · cases hl : s.line with
    | true =>
      simp only [standsOn, hl, if_true, Bool.and_eq_true] at hstands
      have hfresh : startsAfresh binary text = true := by
        cases binary
        · exact hstands.2
        · exact hstands.1
      exact hgap.ends hl text _ binary hlead hfresh
    | false =>
      simp only [standsOn, hl, Bool.false_eq_true, if_false] at hstands
      cases text with
      | nil => simp at hstands
      | cons c rest => exact hgap.goesOn hl c rest _ binary hlead (by simpa using hstands)

end

/-- A capital letter leads a text and can start a line. -/
theorem standsOn_of_isUpper {c : Char} (hc : c.isUpper = true) (line : Bool) (rest : List Char) :
    leads (c :: rest) = true ∧ standsOn line (c :: rest) = true := by
  have hmem := mem_capitals hc
  fin_cases hmem <;> cases line <;> exact ⟨rfl, rfl⟩

section

variable {gap rest : List Char} {line : Bool}

theorem shows_name {c : Char} {cs : List Char} (hc : c.isUpper = true)
    (hcs : ∀ x ∈ cs, x.isAlphanum = true) (hrest : breaksWord rest = true) (hgap : IsGap gap line)
    (hs : gap ++ (c :: cs ++ rest) <:+ source) :
    Sign.Shows grammar ⟨.name, line, false, none⟩ (Cursor.before source (gap ++ (c :: cs ++ rest))) []
      (Cursor.before source rest) := by
  obtain ⟨hlead, hstands⟩ := standsOn_of_isUpper hc line (cs ++ rest)
  have hword : word (c :: cs ++ rest) = some (c :: cs, rest) :=
    word_append (isWordStart_of_isUpper hc) (fun x hx => isWordChar_of_isAlphanum (hcs x hx)) hrest
  refine (Sign.seen_before hgap hlead hstands hs ?_ (by simp)).shows (fun _ t v ht hv => ?_) (by simp)
  · rintro fs ⟨⟩ a ⟨⟩
    exact mem_capitals hc
  · cases t with
    | word except =>
      simp only [Lexeme.verdict?, Option.ite_none_right_eq_some, Option.some.injEq] at hv
      obtain ⟨hexcept, rfl⟩ := hv
      have hnot : except.contains (c :: cs) = false := by
        by_contra hin
        have hmem : c :: cs ∈ except := by simpa using hin
        have hupper := List.all_eq_true.mp hexcept _ hmem
        simp [hc] at hupper
      have hr : Token.only word (fun w => !except.contains w) (c :: cs ++ rest) = some (c :: cs, rest) := by
        rw [Token.only, hword, Option.filter_some_pos (by simpa using hnot)]
      exact ⟨Cursor.before_read? hgap hlead hs hr, Cursor.before_lt hs (by simp)⟩
    | _ => simp [Lexeme.verdict?] at hv

/-- The text is a word. -/
def isWord : List Char → Bool
  | [] => false
  | c :: cs => isWordStart c && cs.all isWordChar

theorem shows_word {text : List Char} (htext : isWord text = true) (hlead : leads (text ++ rest) = true)
    (hstands : standsOn line (text ++ rest) = true) (hrest : breaksWord rest = true)
    (hgap : IsGap gap line) (hs : gap ++ (text ++ rest) <:+ source) :
    Sign.Shows grammar ⟨.word text, line, false, none⟩ (Cursor.before source (gap ++ (text ++ rest))) []
      (Cursor.before source rest) := by
  obtain ⟨c, cs, rfl⟩ : ∃ c cs, text = c :: cs := by
    cases text with
    | nil => simp [isWord] at htext
    | cons c cs => exact ⟨c, cs, rfl⟩
  simp only [isWord, Bool.and_eq_true, List.all_eq_true] at htext
  have hword : word (c :: cs ++ rest) = some (c :: cs, rest) := word_append htext.1 htext.2 hrest
  -- a condition on words lets this one through or not
  have htakes (keep : List Char → Bool) (hkeep : keep (c :: cs) = true) :
      (Cursor.before source (gap ++ (c :: cs ++ rest))).read? (Token.only word keep) =
        some (Cursor.before source rest) := by
    apply Cursor.before_read? hgap hlead hs
    rw [Token.only, hword, Option.filter_some]
    exact if_pos hkeep
  have hrefuses (keep : List Char → Bool) (hkeep : keep (c :: cs) = false) :
      (Cursor.before source (gap ++ (c :: cs ++ rest))).read? (Token.only word keep) = none := by
    apply Cursor.before_read?_eq_none hgap hlead hs
    rw [Token.only, hword, Option.filter_some]
    exact if_neg (by simp [hkeep])
  have hlt := Cursor.before_lt hs (List.cons_ne_nil c cs)
  refine (Sign.seen_before hgap hlead hstands hs ?_ (by simp)).shows (fun _ t v ht hv => ?_) (by simp)
  · rintro fs ⟨⟩ a ⟨⟩
    simp
  · cases t with
    | keyword text =>
      simp only [Lexeme.verdict?, Option.some.injEq] at hv
      split at hv <;> subst hv
      · next heq => exact ⟨htakes _ (by simp [heq]), hlt⟩
      · next hne => exact hrefuses _ (by simpa using fun h => hne h.symm)
    | word except =>
      simp only [Lexeme.verdict?, Option.some.injEq] at hv
      split at hv <;> subst hv
      · next hin => exact hrefuses _ (by simpa using hin)
      · next hnot => exact ⟨htakes _ (by simpa using hnot), hlt⟩
    | _ => simp [Lexeme.verdict?] at hv

theorem shows_mark {c : Char} {spaced : Bool} (hlead : leads (c :: rest) = true)
    (hstands : standsOn line (c :: rest) = true) (hspaced : spaced = true → rest.head?.any isSourceBlank = true)
    (hgap : IsGap gap line) (hs : gap ++ ([c] ++ rest) <:+ source) :
    Sign.Shows grammar ⟨.mark c, line, spaced, none⟩ (Cursor.before source (gap ++ ([c] ++ rest))) []
      (Cursor.before source rest) := by
  refine (Sign.seen_before hgap hlead hstands hs ?_ (by simp)).shows (fun _ t v ht hv => ?_) (by simp)
  · rintro fs ⟨⟩ a ⟨⟩
    simp
  · cases t with
    | mark text stops =>
      match text, stops with
      | [], _ => simp [Token.isLexeme] at ht
      | [x], [] =>
        simp only [Lexeme.verdict?, Option.ite_none_right_eq_some, Option.some.injEq] at hv
        obtain ⟨rfl, rfl⟩ := hv
        refine ⟨Cursor.before_read? hgap hlead hs ?_, Cursor.before_lt hs (by simp)⟩
        have hstops : rest.head?.any ([] : List Char).contains = false := by cases rest <;> rfl
        simp [Token.markReader, exactly, hstops]
      | [x], stop :: stops => simp [Lexeme.verdict?] at hv
      | x :: y :: ys, stops =>
        simp only [Lexeme.verdict?, Option.ite_none_right_eq_some, Option.some.injEq, Bool.and_eq_true,
          Bool.not_eq_true'] at hv
        obtain ⟨⟨hsp, hy⟩, rfl⟩ := hv
        apply Cursor.before_read?_eq_none hgap hlead hs
        -- the mark goes on with a character that is not blank, the text with one that is
        have hsecond : exactly (y :: ys) rest = none := by
          cases rest with
          | nil => rfl
          | cons b rest =>
            have hb : isSourceBlank b = true := by simpa using hspaced hsp
            have hne : ¬ y = b := by
              rintro rfl
              simp [hb] at hy
            simp [exactly, hne]
        simp [Token.markReader, exactly, hsecond]
    | _ => simp [Lexeme.verdict?] at hv

theorem shows_finish (hgap : gap = [] ∨ gap = ['\n']) (c' : Cursor) :
    Sign.Shows grammar ⟨.finish, true, false, none⟩ (Cursor.before source gap) [] c' := by
  have hnext : (Cursor.before source gap).next.text = [] := by
    rcases hgap with rfl | rfl
    · rfl
    · rfl
  have hseen : Sign.Seen (P := P) ⟨.finish, true, false, none⟩ (Cursor.before source gap) := by
    refine ⟨rfl, ?_, by simp, fun binary => ?_⟩
    · rw [hnext]
      simp
    · rcases hgap with rfl | rfl
      · rfl
      · cases binary <;> rfl
  refine hseen.shows (fun _ t v ht hv => ?_) (by simp)
  simp [Lexeme.verdict?] at hv

/-- Of what follows the end of a line only that is known. -/
theorem shows_unknown {text : List Char} (hgap : IsGap gap true) (hlead : leads text = true)
    (hstands : standsOn true text = true) (hs : gap ++ text <:+ source) (c' : Cursor) :
    Sign.Shows grammar ⟨.unknown, true, false, none⟩ (Cursor.before source (gap ++ text)) [] c' := by
  refine (Sign.seen_before hgap hlead hstands hs ?_ (by simp)).shows (fun _ t v ht hv => ?_) (by simp)
  · rintro fs ⟨⟩
  · simp [Lexeme.verdict?] at hv

/-- A phrase in the text shows its first mark. -/
theorem shows_phrase {p : P} {c : Char} {text : List Char} {ts : List Tree} (hlead : leads (c :: text) = true)
    (hstands : standsOn line (c :: text) = true) (hgap : IsGap gap line)
    (hs : gap ++ c :: text <:+ source) (hrest : rest <:+ text)
    (htakes : Takes grammar (.phrase p) (Cursor.before source (gap ++ c :: text)) ts
      (Cursor.before source rest)) :
    Sign.Shows grammar ⟨.mark c, line, false, some p⟩ (Cursor.before source (gap ++ c :: text)) ts
      (Cursor.before source rest) := by
  refine (Sign.seen_before hgap hlead hstands hs ?_ (by simp)).shows (by simp) ?_
  · rintro fs ⟨⟩ a ⟨⟩
    simp
  · rintro q ⟨⟩
    obtain ⟨pre, rfl⟩ := hrest
    exact ⟨htakes, Cursor.before_lt hs (List.cons_ne_nil c pre)⟩

end

end SignatureDocs.Grammar
