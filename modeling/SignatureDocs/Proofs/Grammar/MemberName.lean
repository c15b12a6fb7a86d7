import SignatureDocs.Proofs.Grammar.Naming

/-!
The names of members. The key of a member is a word, a private name, a number, a string or an expression in brackets,
and its name is the text of the key as it is written. So a name in which there is a comma is in quotes or in brackets,
no name starts with a hyphen, and the only blank that a name can start or end with is the next-line control, which
source texts take for a letter.
-/
namespace SignatureDocs.Grammar

open SignatureDocs.Text Reader

variable {source : List Char}

/-- A control that is a blank everywhere but in source texts. -/
def nextLine : Char := '\x85'

/-- Characters of a key without quotes or brackets. -/
def isKeyChar (c : Char) : Bool := c != ',' && (!isBlank c || c = nextLine)

/-- The texts of keys. -/
inductive KeyText : List Char → Prop
  /-- A word, a private name or a number. -/
  | plain {first : Char} {rest : List Char} (hyphen : first ≠ '-') (chars : ∀ c ∈ first :: rest, isKeyChar c = true) :
    KeyText (first :: rest)
  | quoted {quote : Char} (inner : List Char) (h : quote = '"' ∨ quote = '\x27') : KeyText (quote :: (inner ++ [quote]))
  /-- An expression in brackets. -/
  | computed (inner : List Char) : KeyText ('[' :: (inner ++ [']']))

theorem isKeyChar_of_isWordChar (c : Char) (h : isWordChar c = true) : isKeyChar c = true := by
  simp only [isWordChar, Bool.and_eq_true, Bool.not_eq_true'] at h
  obtain ⟨⟨-, hblank⟩, hmark⟩ := h
  have hcomma : c ≠ ',' := by
    rintro rfl
    exact absurd hmark (by decide)
  have hnext : c = nextLine ↔ c.toNat = 0x85 := ⟨fun h => h ▸ rfl, fun h => Char.toNat_inj.1 h⟩
  simp only [isSourceBlank, Bool.or_eq_false_iff, decide_eq_false_iff_not] at hblank
  simp only [isKeyChar, isBlank, hnext, Bool.and_eq_true, bne_iff_ne, Bool.or_eq_true, Bool.not_eq_true',
    Bool.or_eq_false_iff, decide_eq_true_eq, decide_eq_false_iff_not]
  tauto

instance within_key_word : Within isKeyChar word := within_word_of isKeyChar_of_isWordChar (by decide)

namespace Reader

theorem within_eq {q : Char → Bool} {d : Char} (hd : q d = true) : Within q (char (· = d)) := by
  apply within_char
  intro c hc
  rwa [of_decide_eq_true hc]

theorem within_eq_or {q : Char → Bool} {d e : Char} (hd : q d = true) (he : q e = true) :
    Within q (char fun c => c = d || c = e) := by
  apply within_char
  intro c hc
  rcases Bool.or_eq_true_iff.mp hc with hc | hc <;> rwa [of_decide_eq_true hc]

instance within_optional (q : Char → Bool) (r : Reader) [hr : Within q r] : Within q (optional r) where
  within {cs x rest} h := by
    rw [optional, Option.some.injEq] at h
    cases hread : r cs with
    | none =>
      rw [hread] at h
      obtain ⟨rfl, -⟩ := Prod.mk.inj h
      simp
    | some p =>
      rw [hread] at h
      exact hr.within (hread.trans (congrArg some h))

end Reader

instance within_key_privateName : Within isKeyChar privateName := by
  have hmark : Within isKeyChar (char (· = '#')) := within_eq (by decide)
  unfold privateName
  infer_instance

theorem within_key_digits {p : Char → Bool} (hp : ∀ c, p c = true → isHexDigit c = true) :
    Within isKeyChar (digits p) := by
  have hdigit : Within isKeyChar (char p) := by
    apply within_char
    intro c hc
    exact isKeyChar_of_isWordChar c (isWordChar_of_isHexDigit c (hp c hc))
  have hunderscore : Within isKeyChar (char (· = '_')) := within_eq (by decide)
  unfold digits
  infer_instance

theorem within_key_basedNumber {mark : Char} {p : Char → Bool} (hmark : isKeyChar mark = true)
    (hupper : isKeyChar mark.toUpper = true) (hp : ∀ c, p c = true → isHexDigit c = true) :
    Within isKeyChar (basedNumber mark p) := by
  have hzero : Within isKeyChar (char (· = '0')) := within_eq (by decide)
  have hbase := within_eq_or hmark hupper
  have hdigits := within_key_digits hp
  have hlarge : Within isKeyChar (char (· = 'n')) := within_eq (by decide)
  unfold basedNumber
  infer_instance

instance within_key_number : Within isKeyChar number := by
  have hdecimal : Within isKeyChar (digits Char.isDigit) := within_key_digits (by simp +contextual [isHexDigit])
  have hhex : Within isKeyChar (basedNumber 'x' isHexDigit) :=
    within_key_basedNumber (by decide) (by decide) fun _ hc => hc
  have hbinary : Within isKeyChar (basedNumber 'b' isBinaryDigit) :=
    within_key_basedNumber (by decide) (by decide) fun c hc => by
      rcases Bool.or_eq_true_iff.mp hc with hc | hc <;> rw [of_decide_eq_true hc] <;> decide
  have hoctal : Within isKeyChar (basedNumber 'o' isOctalDigit) :=
    within_key_basedNumber (by decide) (by decide) fun c hc => by
      simp only [isOctalDigit, isHexDigit, Char.isDigit, Bool.or_eq_true, Bool.and_eq_true, decide_eq_true_eq,
        Char.le_def, UInt32.le_iff_toNat_le, UInt32.reduceToNat, Char.reduceVal] at hc ⊢
      omega
  have hpoint : Within isKeyChar (char (· = '.')) := within_eq (by decide)
  have hlarge : Within isKeyChar (char (· = 'n')) := within_eq (by decide)
  have hexponent : Within isKeyChar exponent := by
    have hmark : Within isKeyChar (char fun c => c = 'e' || c = 'E') := within_eq_or (by decide) (by decide)
    have hsign : Within isKeyChar (char fun c => c = '+' || c = '-') := within_eq_or (by decide) (by decide)
    unfold exponent
    infer_instance
  have hwhole : Within isKeyChar wholeNumber := by
    constructor
    intro cs x rest h
    simp only [wholeNumber, Option.bind_eq_some_iff, Option.map_eq_some_iff, Prod.mk.injEq] at h
    obtain ⟨⟨y, mid⟩, hy, ⟨⟨z, rest'⟩, hz, rfl, rfl⟩⟩ := h
    have htail : ∀ c ∈ z, isKeyChar c = true := by
      split at hz
      · exact Within.within hz
      · exact Within.within hz
    intro c hc
    rcases List.mem_append.mp hc with hc | hc
    · exact hdecimal.within hy c hc
    · exact htail c hc
  unfold number
  infer_instance

theorem quotedBy_eq_some {quote : Char} {cs x rest : List Char} (h : quotedBy quote cs = some (x, rest)) :
    ∃ inner, x = quote :: (inner ++ [quote]) := by
  have hchar {cs x rest : List Char} (h : char (· = quote) cs = some (x, rest)) : x = [quote] := by
    cases cs with
    | nil => cases h
    | cons c cs =>
      simp only [char, Option.ite_none_right_eq_some, Option.some.injEq, Prod.mk.injEq, decide_eq_true_eq] at h
      rw [← h.2.1, h.1]
  simp only [quotedBy, andThen, Option.bind_eq_some_iff, Option.map_eq_some_iff, Prod.mk.injEq] at h
  obtain ⟨⟨first, mid⟩, hfirst, ⟨⟨tail, rest'⟩, ⟨⟨inner, mid'⟩, -, ⟨last, rest''⟩, hlast, rfl, -⟩, rfl, -⟩⟩ := h
  exact ⟨inner, by rw [hchar hfirst, hchar hlast]; rfl⟩

theorem keyText_plain {p : Char → Bool} {r : Reader} [hwithin : Within isKeyChar r] (hstarts : Starts p r)
    (hp : p '-' = false) {cs x rest : List Char} (h : r cs = some (x, rest)) : KeyText x := by
  obtain ⟨a, y, rfl, ha⟩ := hstarts.starts h
  refine .plain ?_ (hwithin.within h)
  rintro rfl
  rw [hp] at ha
  cases ha

theorem keyText_quoted {cs x rest : List Char} (h : quoted cs = some (x, rest)) : KeyText x := by
  unfold quoted orElse at h
  split at h
  · next hp =>
    obtain ⟨inner, rfl⟩ := quotedBy_eq_some (hp.trans h)
    exact .quoted inner (.inl rfl)
  · obtain ⟨inner, rfl⟩ := quotedBy_eq_some h
    exact .quoted inner (.inr rfl)

/-- A lexeme that is read at a cursor is cut out of the text as it is. -/
theorem Cursor.keyText_read {c c' : Cursor} {r : Reader} [hr : Splits r] (hc : c.On source)
    (hkey : ∀ {x rest}, r c.next.text = some (x, rest) → KeyText x) (h : c.read? r = some c') :
    ∃ x, slice? source ⟨c.next.offset, c'.last.offset⟩ = some x ∧ KeyText x := by
  obtain ⟨x, rest, hx, rfl⟩ := Cursor.read?_eq_some h
  refine ⟨x, ?_, hkey hx⟩
  apply slice?_eq_some
  rw [hc.next.1, hr.eq_append hx]

theorem keyText_of_word {P : Type} {grammar : P → Rule P} {except : List (List Char)} {c c' : Cursor} {ts : List Tree}
    (hc : c.On source) (h : (Rule.token (.word except)).Accepts grammar c ts c') :
    ∃ x, slice? source ⟨c.next.offset, c'.last.offset⟩ = some x ∧ KeyText x := by
  cases h with
  | token hread =>
    refine Cursor.keyText_read hc (fun hx => ?_) hread
    exact keyText_plain starts_word (by decide) (Option.filter_eq_some_iff.1 hx).1

theorem Rule.Accepts.of_mark {grammar : Phrase → Form} {text : String} {c c' : Cursor} {ts : List Tree}
    (h : (mark text).Accepts grammar c ts c') :
    ∃ rest, c.next.text = text.toList ++ rest ∧ c'.last = ⟨rest, c.next.offset + byteLength text.toList⟩ := by
  cases h with
  | token hread =>
    obtain ⟨x, rest, hx, rfl⟩ := Cursor.read?_eq_some hread
    obtain ⟨rfl, htext⟩ := exactly_eq_some (Option.filter_eq_some_iff.1 hx).1
    exact ⟨rest, htext, rfl⟩

/-- Brackets are cut out of the text with all that is between them. -/
theorem keyText_of_brackets {grammar : Phrase → Form} {a : Form} {c c' : Cursor} {ts : List Tree} (hc : c.On source)
    (h : (Rule.all [mark "[", a, mark "]"]).Accepts grammar c ts c') :
    ∃ x, slice? source ⟨c.next.offset, c'.last.offset⟩ = some x ∧ KeyText x := by
  cases h with
  | @both _ _ _ c₁ _ _ _ hopen htail =>
    cases htail with
    | @both _ _ _ c₂ _ _ _ hinner hclose =>
      have hc₁ := hopen.on hc
      have hc₂ := hinner.on hc₁
      have hle : c₁.last.offset ≤ c₂.next.offset := (hinner.le hc₁).trans hc₂.next.2
      obtain ⟨after, hstart, hlast₁⟩ := hopen.of_mark
      obtain ⟨rest, hstop, hlast⟩ := hclose.of_mark
      -- what follows the first bracket is what is inside, up to the second one
      obtain ⟨inner, hinside, hlength⟩ := dropBytes?_between hc₁.last hc₂.next.1 hle
      have hafter : after = inner ++ ("]".toList ++ rest) := by
        rw [hlast₁, hstop] at hinside
        exact hinside
      have htext : dropBytes? source c.next.offset = some (('[' :: (inner ++ [']'])) ++ rest) := by
        rw [hc.next.1, hstart, hafter]
        simp
      have hend : c'.last.offset = c.next.offset + byteLength ('[' :: (inner ++ [']'])) := by
        rw [hlast₁] at hle hlength
        rw [hlast]
        simp only [String.reduceToList, byteLength_cons, byteLength_append, byteLength_nil] at hle hlength ⊢
        omega
      exact ⟨_, hend ▸ slice?_eq_some htext, .computed inner⟩

theorem keyText_of_propertyKey {d : Dialect} {c c' : Cursor} {ts : List Tree} (hc : c.On source)
    (h : propertyKeyRule.Accepts (rules d) c ts c') :
    ∃ x, slice? source ⟨c.next.offset, c'.last.offset⟩ = some x ∧ KeyText x := by
  cases h with
  | left hword => exact keyText_of_word hc hword
  | right h =>
    cases h with
    | left hprivate =>
      cases hprivate with
      | token hread => exact Cursor.keyText_read hc (keyText_plain starts_privateName (by decide)) hread
    | right h =>
      cases h with
      | left hquoted =>
        cases hquoted with
        | token hread => exact Cursor.keyText_read hc keyText_quoted hread
      | right h =>
        cases h with
        | left hnumber =>
          cases hnumber with
          | token hread => exact Cursor.keyText_read hc (keyText_plain starts_number (by decide)) hread
        | right hbrackets => exact keyText_of_brackets hc hbrackets

namespace KeyText

variable {x : List Char}

theorem ne_nil (h : KeyText x) : x ≠ [] := by
  cases h <;> simp

theorem head?_ne_hyphen (h : KeyText x) : x.head? ≠ some '-' := by
  cases h with
  | plain hyphen _ => simpa using hyphen
  | quoted _ hquote => rcases hquote with rfl | rfl <;> simp
  | computed => simp

/-- A comma is in quotes or in brackets. -/
theorem of_comma (h : KeyText x) (hcomma : ',' ∈ x) :
    x.head? = some '"' ∨ x.head? = some '\x27' ∨ x.head? = some '[' := by
  cases h with
  | plain _ chars => exact absurd (chars ',' hcomma) (by decide)
  | quoted _ hquote => rcases hquote with rfl | rfl <;> simp
  | computed => simp

/-- The only blank at an end of a key is the next-line control. -/
theorem eq_nextLine (h : KeyText x) {c : Char} (hend : x.head? = some c ∨ x.getLast? = some c)
    (hblank : isBlank c = true) : c = nextLine := by
  have hlast (a b : Char) (inner : List Char) : (a :: (inner ++ [b])).getLast? = some b := by
    rw [← List.cons_append, List.getLast?_concat]
  cases h with
  | @plain first rest _ chars =>
    have hmem : c ∈ first :: rest := by
      rcases hend with hend | hend
      · exact List.mem_of_head? hend
      · exact List.mem_of_getLast? hend
    have hchar := chars c hmem
    simpa [isKeyChar, hblank] using (Bool.and_eq_true_iff.mp hchar).2
  | @quoted quote inner hquote =>
    obtain rfl : quote = c := by rcases hend with hend | hend <;> simpa [hlast] using hend
    rcases hquote with rfl | rfl <;> cases hblank
  | computed inner =>
    have hbracket : c = '[' ∨ c = ']' := by
      rcases hend with hend | hend
      · exact Or.inl (by simpa using hend.symm)
      · exact Or.inr (by simpa [hlast] using hend.symm)
    rcases hbracket with rfl | rfl <;> cases hblank

end KeyText

/-- The rule takes a key, or a word alone, and nothing else. -/
def Rule.isKey : Form → Bool
  | phrase .propertyKey => true
  | token (.word _) => true
  | _ => false

theorem rules_memberName (d : Dialect) (p : Phrase) :
    ((rules d p).parts.all fun q => q.1 != .memberName || q.2.isKey) = true := by
  cases d <;> cases p with
  | typeExpr line | typeOperand line | typeElement line | callSignature line | block line =>
    cases line <;> decide +kernel
  | expression s | operand s | unary s | atom s | suffix s | expressions s =>
    obtain ⟨line, typed, head⟩ := s
    cases line <;> cases typed <;> cases head <;> decide +kernel
  | _ => decide +kernel

/-- The name of every member in the trees of a file is a key as it is written. -/
theorem readFile_memberName {d : Dialect} {ts : List Tree} {c' : Cursor} {r : Reach}
    (h : readFile d source = .accepted ts c' r) : ∀ t ∈ Tree.preorderAll ts, t.part = .memberName →
      ∃ x, slice? source t.span = some x ∧ KeyText x := by
  intro t ht hpart
  obtain ⟨a, c, c₁, hmade, hc, haccepts, hspan⟩ :=
    (Rule.accepts_of_read _ h).madeBy (Cursor.On.start source) t ht
  have hprogram : (program.parts.all fun q => q.1 != .memberName || q.2.isKey) = true := by decide
  have hkey : a.isKey = true := by
    rcases hmade with hmade | ⟨p, hmade⟩
    · simpa [hpart] using List.all_eq_true.1 hprogram _ hmade
    · simpa [hpart] using List.all_eq_true.1 (rules_memberName d p) _ hmade
  rw [hspan]
  unfold Rule.isKey at hkey
  split at hkey
  · cases haccepts with
    | phrase hkey => exact keyText_of_propertyKey hc hkey
  · exact keyText_of_word hc haccepts
  · cases hkey

end SignatureDocs.Grammar
