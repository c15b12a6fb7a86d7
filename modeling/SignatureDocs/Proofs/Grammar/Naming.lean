import SignatureDocs.Proofs.Grammar.Tiling

/-!
The names of declarations are words. Every part of a tree was made by a part of some rule, and the rules make the
name of a declaration of nothing but a word. A word is never empty, and it has neither a slash nor the null character,
however it is spelled.
-/
namespace SignatureDocs.Grammar

open SignatureDocs.Text

variable {P : Type} {source : List Char}

/-- The parts that a rule makes itself, each with the rule for what is in it. -/
def Rule.parts : Rule P → List (Part × Rule P)
  | both a b | either a b => a.parts ++ b.parts
  | many a => a.parts
  | node part a => (part, a) :: a.parts
  | token _ | phrase _ | nothing | ahead _ | absent _ => []

theorem Rule.Accepts.on {grammar : P → Rule P} {rule : Rule P} {c c' : Cursor} {ts : List Tree}
    (h : rule.Accepts grammar c ts c') (hc : c.On source) : c'.On source := by
  induction h with
  | token hread => exact (Token.read?_on hc hread).1
  | phrase _ ih | left _ ih | right _ ih | node _ ih => exact ih hc
  | nothing | manyNil | ahead | absent => exact hc
  | both _ _ iha ihb | manyCons _ _ _ iha ihb => exact ihb (iha hc)

theorem Rule.Accepts.le {grammar : P → Rule P} {rule : Rule P} {c c' : Cursor} {ts : List Tree}
    (h : rule.Accepts grammar c ts c') (hc : c.On source) : c.last.offset ≤ c'.last.offset := by
  induction h with
  | token hread => exact (Token.read?_on hc hread).2
  | phrase _ ih | left _ ih | right _ ih | node _ ih => exact ih hc
  | nothing | manyNil | ahead | absent => exact le_rfl
  | both ha _ iha ihb | manyCons ha _ _ iha ihb => exact (iha hc).trans (ihb (ha.on hc))

/-- A part of the tree that one of the rules in `made` gave, and what was read for it. -/
def Tree.MadeBy (source : List Char) (grammar : P → Rule P) (made : Part × Rule P → Prop) (t : Tree) : Prop :=
  ∃ a c c', made (t.part, a) ∧ c.On source ∧ a.Accepts grammar c t.children c' ∧
    t.span = ⟨c.next.offset, c'.last.offset⟩

/-- Every part that reading by a rule makes comes from the rule or from the rule of some phrase. -/
theorem Rule.Accepts.madeBy {grammar : P → Rule P} {rule : Rule P} {c c' : Cursor} {ts : List Tree}
    (h : rule.Accepts grammar c ts c') (hc : c.On source) :
    ∀ t ∈ Tree.preorderAll ts, t.MadeBy source grammar fun q => q ∈ rule.parts ∨ ∃ p, q ∈ (grammar p).parts := by
  -- a part that comes from one of two rules comes from the rule that is made of both
  have hmono {made made' : Part × Rule P → Prop} {us : List Tree} (himp : ∀ q, made q → made' q)
      (hus : ∀ t ∈ Tree.preorderAll us, t.MadeBy source grammar made) :
      ∀ t ∈ Tree.preorderAll us, t.MadeBy source grammar made' := by
    intro t ht
    obtain ⟨a, c, c', hmade, hrest⟩ := hus t ht
    exact ⟨a, c, c', himp _ hmade, hrest⟩
  have hfirst {made made' : Part × Rule P → Prop} {us vs : List Tree}
      (hus : ∀ t ∈ Tree.preorderAll us, t.MadeBy source grammar made)
      (hvs : ∀ t ∈ Tree.preorderAll vs, t.MadeBy source grammar made') :
      ∀ t ∈ Tree.preorderAll (us ++ vs), t.MadeBy source grammar fun q => made q ∨ made' q := by
    intro t ht
    rw [preorderAll_append, List.mem_append] at ht
    rcases ht with ht | ht
    · exact hmono (fun _ => Or.inl) hus t ht
    · exact hmono (fun _ => Or.inr) hvs t ht
  induction h with
  | token | nothing | manyNil | ahead | absent => simp [Tree.preorderAll]
  | phrase _ ih => exact hmono (fun q hq => Or.inr (hq.elim (fun hq => ⟨_, hq⟩) id)) (ih hc)
  | both ha hb iha ihb =>
    refine hmono ?_ (hfirst (iha hc) (ihb (ha.on hc)))
    simp only [Rule.parts, List.mem_append]
    tauto
  | left _ ih =>
    refine hmono ?_ (ih hc)
    simp only [Rule.parts, List.mem_append]
    tauto
  | right _ ih =>
    refine hmono ?_ (ih hc)
    simp only [Rule.parts, List.mem_append]
    tauto
  | manyCons ha _ _ iha ihb =>
    refine hmono ?_ (hfirst (iha hc) (ihb (ha.on hc)))
    simp only [Rule.parts]
    tauto
  | @node part a c c' ts ha ih =>
    intro t ht
    simp only [Tree.preorderAll, Tree.preorder, List.append_nil, List.mem_cons] at ht
    rcases ht with rfl | ht
    · exact ⟨a, c, c', Or.inl (by simp [Rule.parts, Tree.part]), hc, ha, rfl⟩
    · refine hmono ?_ (ih hc) t ht
      simp only [Rule.parts, List.mem_cons]
      tauto

/-- All characters of a lexeme are of a class. -/
class Reader.Within (p : Char → Bool) (r : Reader) : Prop where
  within : ∀ {cs x rest : List Char}, r cs = some (x, rest) → ∀ c ∈ x, p c = true

namespace Reader

theorem within_char {p q : Char → Bool} (hp : ∀ c, p c = true → q c = true) : Within q (char p) where
  within {cs x rest} h := by
    cases cs with
    | nil => simp [char] at h
    | cons c cs =>
      simp only [char, Option.ite_none_right_eq_some, Option.some.injEq, Prod.mk.injEq] at h
      obtain ⟨hc, rfl, -⟩ := h
      simpa using hp c hc

theorem within_exactly {q : Char → Bool} {ws : List Char} (hws : ws.all q = true) : Within q (exactly ws) where
  within h := by
    obtain ⟨rfl, -⟩ := exactly_eq_some h
    exact List.all_eq_true.1 hws

theorem within_run1 {p q : Char → Bool} (hp : ∀ c, p c = true → q c = true) : Within q (run1 p) where
  within {cs x rest} h := by
    unfold run1 at h
    split at h
    · simp at h
    · simp only [Option.some.injEq, Prod.mk.injEq] at h
      obtain ⟨rfl, -⟩ := h
      intro c hc
      exact hp c (List.mem_takeWhile_imp hc)

instance within_andThen (q : Char → Bool) (r s : Reader) [hr : Within q r] [hs : Within q s] :
    Within q (andThen r s) where
  within {cs x rest} h := by
    simp only [andThen, Option.bind_eq_some_iff, Option.map_eq_some_iff, Prod.mk.injEq] at h
    obtain ⟨⟨y, mid⟩, hy, ⟨⟨z, rest'⟩, hz, rfl, rfl⟩⟩ := h
    intro c hc
    rcases List.mem_append.1 hc with hc | hc
    · exact hr.within hy c hc
    · exact hs.within hz c hc

instance within_orElse (q : Char → Bool) (r s : Reader) [hr : Within q r] [hs : Within q s] :
    Within q (orElse r s) where
  within {cs x rest} h := by
    unfold orElse at h
    split at h
    · next hp => exact hr.within (hp.trans h)
    · exact hs.within h

instance within_many (q : Char → Bool) (r : Reader) [hr : Within q r] : Within q (fun cs => some (many r cs)) where
  within {cs x rest} h := by
    -- the budget of the repetition is the text itself, and a shorter budget only reads less
    have hall (budget cs : List Char) : ∀ c ∈ (upTo r budget cs).1, q c = true := by
      induction budget generalizing cs with
      | nil => simp [upTo]
      | cons b budget ih =>
        unfold upTo
        cases hread : r cs with
        | none => simp
        | some p =>
          intro c hc
          rcases List.mem_append.1 hc with hc | hc
          · exact hr.within hread c hc
          · exact ih p.2 c hc
    simp only [many, Option.some.injEq] at h
    have hx := hall cs cs
    rw [h] at hx
    exact hx

end Reader

open Reader

/-- Characters that can stand in the name of a file. -/
def isFileChar (c : Char) : Bool := c != '/' && c != '\x00'

/-- A class that has neither of the two characters that a file name cannot have. -/
theorem isFileChar_of {p : Char → Bool} (hslash : p '/' = false) (hnull : p '\x00' = false) (c : Char)
    (h : p c = true) : isFileChar c = true := by
  simp only [isFileChar, Bool.and_eq_true, bne_iff_ne]
  constructor
  · rintro rfl
    simp [hslash] at h
  · rintro rfl
    simp [hnull] at h

/-- Between classes of ASCII characters it is enough to look at ASCII. -/
theorem imp_of_ascii {p q : Char → Bool} (hp : ∀ c, p c = true → c.toNat < 128)
    (h : ∀ n < 128, p (Char.ofNat n) = true → q (Char.ofNat n) = true) (c : Char) (hc : p c = true) : q c = true := by
  simpa using h c.toNat (hp c hc) (by simpa using hc)

theorem isWordChar_of_isHexDigit : ∀ c, isHexDigit c = true → isWordChar c = true := by
  refine imp_of_ascii ?_ (by decide +kernel)
  intro c hc
  have hval : c.val.toNat = c.toNat := rfl
  simp only [isHexDigit, Char.isDigit, Bool.or_eq_true, Bool.and_eq_true, decide_eq_true_eq, Char.le_def,
    UInt32.le_iff_toNat_le, hval, UInt32.reduceToNat, Char.reduceVal] at hc
  omega

/-- A class with the characters inside an identifier and those around an escape has all characters of a word. -/
theorem within_word_of {q : Char → Bool} (hchar : ∀ c, isWordChar c = true → q c = true)
    (hmarks : "\\\x7b\x7d".toList.all q = true) : Within q word := by
  simp only [String.reduceToList, List.all_cons, List.all_nil, Bool.and_true, Bool.and_eq_true] at hmarks
  obtain ⟨hbackslash, hbraces⟩ := hmarks
  have hhex : ∀ c, isHexDigit c = true → q c = true := fun c hc => hchar c (isWordChar_of_isHexDigit c hc)
  have hdigit : Within q (char isHexDigit) := within_char hhex
  have hdigits : Within q (run1 isHexDigit) := within_run1 hhex
  have hopen : Within q (exactly "\\u\x7b".toList) := within_exactly (by simp [hbackslash, hbraces, hchar 'u' rfl])
  have hclose : Within q (exactly "\x7d".toList) := within_exactly (by simp [hbraces])
  have hshort : Within q (exactly "\\u".toList) := within_exactly (by simp [hbackslash, hchar 'u' rfl])
  have hstart : Within q (char isWordStart) := by
    apply within_char
    intro c hc
    exact hchar c (Bool.and_eq_true_iff.1 hc).1
  have hrun : Within q (run1 isWordChar) := within_run1 hchar
  unfold word codePointEscape
  infer_instance

instance within_word : Within isFileChar word :=
  within_word_of (isFileChar_of (by decide) (by decide)) (by decide)

/-- The rule takes a word and nothing else. -/
def Rule.isWord : Rule P → Bool
  | token (.word _) => true
  | _ => false

theorem rules_declarationName (d : Dialect) (p : Phrase) :
    ((rules d p).parts.all fun q => q.1 != .declarationName || q.2.isWord) = true := by
  cases d <;> cases p with
  | typeExpr line | typeOperand line | typeElement line | callSignature line | block line =>
    cases line <;> decide +kernel
  | expression s | operand s | unary s | atom s | suffix s | expressions s =>
    obtain ⟨line, typed, head⟩ := s
    cases line <;> cases typed <;> cases head <;> decide +kernel
  | _ => decide +kernel

/-- What a word is cut out of the text as: something, and all of it can stand in the name of a file. -/
theorem Rule.isWord_slice? {grammar : P → Rule P} {rule : Rule P} {c c' : Cursor} {ts : List Tree}
    (hword : rule.isWord = true) (h : rule.Accepts grammar c ts c') (hc : c.On source) :
    ∃ x, slice? source ⟨c.next.offset, c'.last.offset⟩ = some x ∧ x ≠ [] ∧ ∀ a ∈ x, isFileChar a = true := by
  unfold Rule.isWord at hword
  split at hword
  · cases h with
    | token hread =>
      obtain ⟨x, rest, hx, rfl⟩ := Cursor.read?_eq_some hread
      have hx' := (Option.filter_eq_some_iff.1 hx).1
      have htext : dropBytes? source c.next.offset = some (x ++ rest) := by
        rw [hc.next.1, splits_word.eq_append hx']
      obtain ⟨a, y, rfl, -⟩ := starts_word.starts hx'
      exact ⟨a :: y, slice?_eq_some htext, by simp, within_word.within hx'⟩
  · simp at hword

/-- The name of every declaration in the trees of a file is a word of it. -/
theorem readFile_declarationName {d : Dialect} {ts : List Tree} {c' : Cursor} {r : Reach}
    (h : readFile d source = .accepted ts c' r) : ∀ t ∈ Tree.preorderAll ts, t.part = .declarationName →
      ∃ x, slice? source t.span = some x ∧ x ≠ [] ∧ ∀ a ∈ x, isFileChar a = true := by
  intro t ht hpart
  obtain ⟨a, c, c₁, hmade, hc, haccepts, hspan⟩ :=
    (Rule.accepts_of_read _ h).madeBy (Cursor.On.start source) t ht
  have hprogram : (program.parts.all fun q => q.1 != .declarationName || q.2.isWord) = true := by decide
  have hword : a.isWord = true := by
    rcases hmade with hmade | ⟨p, hmade⟩
    · simpa [hpart] using List.all_eq_true.1 hprogram _ hmade
    · simpa [hpart] using List.all_eq_true.1 (rules_declarationName d p) _ hmade
  rw [hspan]
  exact Rule.isWord_slice? hword haccepts hc

end SignatureDocs.Grammar
