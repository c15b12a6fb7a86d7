import SignatureDocs.Proofs.Grammar.Lexeme

/-!
Cursors on a source. Every cursor that reading comes to stands between two characters of the source, and it
never moves back.
-/
namespace SignatureDocs.Grammar

open SignatureDocs.Text Reader

/-- A located text is what the source has from its offset on. -/
def Located.On (source : List Char) (l : Located) : Prop :=
  dropBytes? source l.offset = some l.text

/-- A cursor stands between two lexemes of the source, and nothing but a gap is between its two texts. -/
structure Cursor.On (source : List Char) (c : Cursor) : Prop where
  last : c.last.On source
  eq_after : c = Cursor.after c.last

/-- A character that neither stands between the members of a body nor separates them. -/
def isSolid (c : Char) : Bool := c != ' ' && c != '\t' && c != ';' && c != ','

/-- At an offset the source has a solid character. -/
def SolidAt (source : List Char) (offset : Nat) : Prop :=
  ∃ c rest, dropBytes? source offset = some (c :: rest) ∧ isSolid c = true

variable {source : List Char}

namespace Located

theorem skip?_eq_some {l l' : Located} {r : Reader} (h : l.skip? r = some l') :
    ∃ x rest, r l.text = some (x, rest) ∧ l' = ⟨rest, l.offset + byteLength x⟩ := by
  simp only [skip?, Option.map_eq_some_iff] at h
  obtain ⟨⟨x, rest⟩, hx, rfl⟩ := h
  exact ⟨x, rest, hx, rfl⟩

theorem On.skip {l l' : Located} {r : Reader} [hr : Splits r] (hl : l.On source)
    (h : l.skip? r = some l') : l'.On source ∧ l.offset ≤ l'.offset := by
  obtain ⟨x, rest, hx, rfl⟩ := skip?_eq_some h
  refine ⟨?_, Nat.le_add_right _ _⟩
  unfold On at hl ⊢
  rw [hr.eq_append hx] at hl
  exact dropBytes?_add hl

theorem On.skipGaps {l : Located} (budget : List Char) (hl : l.On source) :
    (skipGaps budget l).On source ∧ l.offset ≤ (skipGaps budget l).offset := by
  induction budget generalizing l with
  | nil => exact ⟨hl, Nat.le_refl _⟩
  | cons b budget ih =>
    unfold Located.skipGaps
    cases hg : l.skipGap? with
    | none => exact ⟨hl, Nat.le_refl _⟩
    | some l' =>
      obtain ⟨hl', hle⟩ := hl.skip hg
      obtain ⟨hon, hle'⟩ := ih hl'
      exact ⟨hon, hle.trans hle'⟩

theorem On.next {l : Located} (hl : l.On source) : l.next.On source ∧ l.offset ≤ l.next.offset :=
  hl.skipGaps l.text

theorem On.lineEnd? {l l' : Located} {binary : Bool} (budget : List Char) (hl : l.On source)
    (h : Located.lineEnd? binary budget l = some l') : l'.On source ∧ l.offset ≤ l'.offset := by
  induction budget generalizing l with
  | nil =>
    simp only [Located.lineEnd?, Option.ite_none_right_eq_some, Option.some.injEq] at h
    rw [← h.2]
    exact ⟨hl, Nat.le_refl _⟩
  | cons b budget ih =>
    unfold Located.lineEnd? at h
    split at h
    · rw [← Option.some.inj h]
      exact ⟨hl, Nat.le_refl _⟩
    · obtain ⟨l₂, hcomment, hrest⟩ := Option.bind_eq_some_iff.mp h
      -- the run of blanks before the comment may be empty
      have hblank : ((l.skip? (run1 isSourceBlank)).getD l).On source ∧
          l.offset ≤ ((l.skip? (run1 isSourceBlank)).getD l).offset := by
        cases hs : l.skip? (run1 isSourceBlank) with
        | none => exact ⟨hl, Nat.le_refl _⟩
        | some l₁ => exact hl.skip hs
      obtain ⟨hl₂, hle₂⟩ := hblank.1.skip hcomment
      obtain ⟨hon, hle⟩ := ih hl₂ hrest
      exact ⟨hon, hblank.2.trans (hle₂.trans hle)⟩

end Located

namespace Cursor

theorem On.after {l : Located} (hl : l.On source) : (Cursor.after l).On source :=
  ⟨hl, rfl⟩

theorem On.start (source : List Char) : (Cursor.start source).On source :=
  On.after (dropBytes?_zero source)

theorem On.next {c : Cursor} (hc : c.On source) :
    c.next.On source ∧ c.last.offset ≤ c.next.offset := by
  rw [hc.eq_after]
  exact hc.last.next

theorem On.last_le {c : Cursor} (hc : c.On source) : c.last.offset ≤ byteLength source :=
  dropBytes?_le hc.last

theorem On.isSome {c : Cursor} (hc : c.On source) : (dropBytes? source c.last.offset).isSome := by
  rw [hc.last]
  rfl

theorem On.next_isSome {c : Cursor} (hc : c.On source) :
    (dropBytes? source c.next.offset).isSome := by
  rw [hc.next.1]
  rfl

/-- A lexeme is read from the text at the cursor, and the new cursor stands right after it. -/
theorem read?_eq_some {c c' : Cursor} {r : Reader} (h : c.read? r = some c') :
    ∃ x rest, r c.next.text = some (x, rest) ∧ c' = after ⟨rest, c.next.offset + byteLength x⟩ := by
  obtain ⟨l, hl, rfl⟩ := Option.map_eq_some_iff.mp h
  obtain ⟨x, rest, hx, rfl⟩ := Located.skip?_eq_some hl
  exact ⟨x, rest, hx, rfl⟩

theorem On.read {c c' : Cursor} {r : Reader} [Splits r] (hc : c.On source)
    (h : c.read? r = some c') : c'.On source ∧ c.next.offset ≤ c'.last.offset := by
  obtain ⟨l, hl, rfl⟩ := Option.map_eq_some_iff.mp h
  obtain ⟨hon, hle⟩ := hc.next.1.skip hl
  exact ⟨On.after hon, hle⟩

theorem On.readHere {c c' : Cursor} {r : Reader} [Splits r] (hc : c.On source)
    (h : c.readHere? r = some c') : c'.On source ∧ c.last.offset ≤ c'.last.offset := by
  obtain ⟨l, hl, rfl⟩ := Option.map_eq_some_iff.mp h
  obtain ⟨hon, hle⟩ := hc.last.skip hl
  exact ⟨On.after hon, hle⟩

end Cursor

namespace Token

/-- Tokens that stand for a lexeme at the cursor. -/
def isLexeme : Token → Bool
  | mark text _ => !text.isEmpty
  | oneOf ops => ops.all fun op => !op.isEmpty
  | keyword _ | word _ | privateName | number | quoted | regex | hyphenName | markupString
  | arrowComment | scriptLine => true
  | _ => false

/-- Tokens that take nothing. -/
def isIdle : Token → Bool
  | lineEnd _ | sameLine _ | finish => true
  | _ => false

/-- Can the lexemes of the token start with a character? Tokens that are no lexemes are not told apart. -/
def canStart (c : Char) : Token → Bool
  | mark text _ | keyword text => text.head? = some c
  | oneOf ops => ops.any fun op => op.head? = some c
  | word _ => isWordStart c || c = '\\'
  | privateName | scriptLine => c = '#'
  | number => c.isDigit || c = '.'
  | quoted | markupString => c = '"' || c = '\x27'
  | regex => c = '/'
  | hyphenName => c.isAlpha || c = '_' || c = '$'
  | arrowComment => c = '<' || c = '-'
  | _ => true

/-- Tokens whose lexemes start with a solid character. -/
def isSolid : Token → Bool
  | mark text _ | keyword text => text.head?.all Grammar.isSolid
  | oneOf ops => ops.all fun op => op.head?.all Grammar.isSolid
  | _ => true

theorem isSolid_of_canStart {t : Token} {c : Char} (ht : t.isLexeme = true) (hs : t.isSolid = true)
    (hc : t.canStart c = true) : Grammar.isSolid c = true := by
  have hfour (h : t.canStart ' ' = false ∧ t.canStart '\t' = false ∧ t.canStart ';' = false ∧
      t.canStart ',' = false) : Grammar.isSolid c = true := by
    simp only [Grammar.isSolid, Bool.and_eq_true, bne_iff_ne]
    refine ⟨⟨⟨?_, ?_⟩, ?_⟩, ?_⟩ <;> rintro rfl <;> simp_all
  cases t with
  | mark text stops | keyword text =>
    simp only [canStart, decide_eq_true_eq] at hc
    simpa [isSolid, hc] using hs
  | oneOf ops =>
    obtain ⟨op, hop, hhead⟩ := List.any_eq_true.mp hc
    have hall := List.all_eq_true.mp hs op hop
    simpa [of_decide_eq_true hhead] using hall
  | word except | privateName | number | quoted | regex | hyphenName | markupString | arrowComment
  | scriptLine => exact hfour ⟨rfl, rfl, rfl, rfl⟩
  | _ => simp [isLexeme] at ht

theorem read?_on {c c' : Cursor} {t : Token} (hc : c.On source) (h : t.read? c = some c') :
    c'.On source ∧ c.last.offset ≤ c'.last.offset := by
  have hlexeme {r : Reader} [Splits r] (h : c.read? r = some c') :
      c'.On source ∧ c.last.offset ≤ c'.last.offset :=
    ⟨(hc.read h).1, hc.next.2.trans (hc.read h).2⟩
  cases t with
  | here text => exact hc.readHere h
  | templateText => exact hc.readHere h
  | escape => exact hc.readHere h
  | markupText => exact hc.readHere h
  | markupEntity => exact hc.readHere h
  | lineEnd binary =>
    obtain ⟨l, -, rfl⟩ := Option.map_eq_some_iff.mp h
    exact ⟨hc, Nat.le_refl _⟩
  | sameLine binary =>
    simp only [read?, Option.ite_none_left_eq_some, Option.some.injEq] at h
    rw [← h.2]
    exact ⟨hc, Nat.le_refl _⟩
  | closing binary =>
    obtain ⟨l, hl, rfl⟩ := Option.map_eq_some_iff.mp h
    obtain ⟨hon, hle⟩ := hc.last.lineEnd? _ hl
    exact ⟨Cursor.On.after hon, hle⟩
  | finish =>
    simp only [read?, Option.ite_none_right_eq_some, Option.some.injEq] at h
    rw [← h.2]
    exact ⟨hc, Nat.le_refl _⟩
  | _ => exact hlexeme h

theorem read?_idle {c c' : Cursor} {t : Token} (ht : t.isIdle = true) (h : t.read? c = some c') :
    c' = c := by
  cases t with
  | lineEnd binary =>
    obtain ⟨l, -, rfl⟩ := Option.map_eq_some_iff.mp h
    rfl
  | sameLine binary =>
    simp only [read?, Option.ite_none_left_eq_some, Option.some.injEq] at h
    exact h.2.symm
  | finish =>
    simp only [read?, Option.ite_none_right_eq_some, Option.some.injEq] at h
    exact h.2.symm
  | _ => simp [isIdle] at ht

/-- What a token reads at a cursor: a lexeme that the text there starts with. -/
theorem read?_eq_cons {c c' : Cursor} {t : Token} (ht : t.isLexeme = true) (h : t.read? c = some c') :
    ∃ a x rest, c.next.text = a :: (x ++ rest) ∧ t.canStart a = true ∧
      c' = Cursor.after ⟨rest, c.next.offset + byteLength (a :: x)⟩ := by
  have hread {r : Reader} [hr : Splits r] (h : c.read? r = some c')
      (hx : ∀ x rest, r c.next.text = some (x, rest) → ∃ a y, x = a :: y ∧ t.canStart a = true) :
      ∃ a x rest, c.next.text = a :: (x ++ rest) ∧ t.canStart a = true ∧
        c' = Cursor.after ⟨rest, c.next.offset + byteLength (a :: x)⟩ := by
    obtain ⟨x, rest, hx', rfl⟩ := Cursor.read?_eq_some h
    obtain ⟨a, y, rfl, ha⟩ := hx x rest hx'
    exact ⟨a, y, rest, hr.eq_append hx', ha, rfl⟩
  cases t with
  | mark text stops =>
    refine hread h fun x rest hx => ?_
    obtain ⟨rfl, -⟩ := exactly_eq_some (Option.filter_eq_some_iff.mp hx).1
    obtain ⟨a, y, rfl⟩ := List.exists_cons_of_ne_nil (by simpa [isLexeme] using ht)
    exact ⟨a, y, rfl, by simp [canStart]⟩
  | oneOf ops =>
    refine hread h fun x rest hx => ?_
    have hmem : x ∈ ops := by simpa using (Option.filter_eq_some_iff.mp hx).2
    have hne : x ≠ [] := by simpa using List.all_eq_true.mp ht x hmem
    obtain ⟨a, y, rfl⟩ := List.exists_cons_of_ne_nil hne
    exact ⟨a, y, rfl, List.any_eq_true.mpr ⟨_, hmem, by simp⟩⟩
  | keyword text =>
    refine hread h fun x rest hx => ?_
    obtain ⟨a, y, rfl, -⟩ := starts_word.starts (Option.filter_eq_some_iff.mp hx).1
    have htext : a :: y = text := by simpa using (Option.filter_eq_some_iff.mp hx).2
    exact ⟨a, y, rfl, by simp [canStart, ← htext]⟩
  | word except => exact hread h fun x rest hx => starts_word.starts (Option.filter_eq_some_iff.mp hx).1
  | privateName => exact hread h fun x rest hx => starts_privateName.starts hx
  | number => exact hread h fun x rest hx => starts_number.starts hx
  | quoted => exact hread h fun x rest hx => starts_quoted.starts hx
  | regex => exact hread h fun x rest hx => starts_regex.starts hx
  | hyphenName => exact hread h fun x rest hx => starts_hyphenName.starts hx
  | markupString => exact hread h fun x rest hx => starts_markupString.starts hx
  | arrowComment => exact hread h fun x rest hx => starts_arrowComment.starts hx
  | scriptLine => exact hread h fun x rest hx => starts_scriptLine.starts hx
  | _ => simp [isLexeme] at ht

theorem read?_lexeme {c c' : Cursor} {t : Token} (hc : c.On source) (ht : t.isLexeme = true)
    (h : t.read? c = some c') :
    c.next.offset < c'.last.offset ∧ (t.isSolid = true → SolidAt source c.next.offset) := by
  obtain ⟨a, x, rest, htext, ha, rfl⟩ := read?_eq_cons ht h
  refine ⟨Nat.lt_add_of_pos_right (byteLength_pos (by simp)), fun hsolid => ?_⟩
  exact ⟨a, x ++ rest, by rw [hc.next.1, htext], isSolid_of_canStart ht hsolid ha⟩

end Token

end SignatureDocs.Grammar
