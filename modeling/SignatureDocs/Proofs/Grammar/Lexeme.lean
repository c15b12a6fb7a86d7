import SignatureDocs.Grammar.Token
import SignatureDocs.Proofs.Text.Offset

/-!
What every reader of lexemes keeps: the lexeme and the rest are the text that was read, and the lexeme starts with a
character of a class that the reader alone decides.
-/
namespace SignatureDocs.Grammar

open SignatureDocs.Text

namespace Reader

/-- A lexeme together with what follows it is the text that was read. -/
class Splits (r : Reader) : Prop where
  eq_append : ∀ {cs x rest : List Char}, r cs = some (x, rest) → cs = x ++ rest

/-- A lexeme starts with a character of a class. -/
class Starts (p : Char → Bool) (r : Reader) : Prop where
  starts : ∀ {cs x rest : List Char}, r cs = some (x, rest) → ∃ c y, x = c :: y ∧ p c = true

instance splits_char (p : Char → Bool) : Splits (char p) where
  eq_append {cs x rest} h := by
    cases cs with
    | nil => simp [char] at h
    | cons c cs =>
      by_cases hc : p c = true <;> simp_all [char]
      rw [← h.1]
      rfl

instance splits_andThen (r q : Reader) [hr : Splits r] [hq : Splits q] : Splits (andThen r q) where
  eq_append {cs x rest} h := by
    simp only [andThen, Option.bind_eq_some_iff, Option.map_eq_some_iff, Prod.mk.injEq] at h
    obtain ⟨⟨y, mid⟩, hy, ⟨⟨z, rest'⟩, hz, rfl, rfl⟩⟩ := h
    have hmid : mid = z ++ rest' := hq.eq_append hz
    rw [hr.eq_append hy, hmid, List.append_assoc]

instance splits_orElse (r q : Reader) [hr : Splits r] [hq : Splits q] : Splits (orElse r q) where
  eq_append {cs x rest} h := by
    unfold orElse at h
    split at h
    · next hp => exact hr.eq_append (hp.trans h)
    · exact hq.eq_append h

instance splits_optional (r : Reader) [hr : Splits r] : Splits (optional r) where
  eq_append {cs x rest} h := by
    simp only [optional, Option.some.injEq] at h
    cases hp : r cs with
    | none =>
      rw [hp] at h
      simp only [Option.getD_none, Prod.mk.injEq] at h
      rw [← h.1, ← h.2]
      rfl
    | some p =>
      rw [hp] at h
      exact hr.eq_append (hp.trans (congrArg some h))

theorem exactly_eq_some {ws cs x rest : List Char} (h : exactly ws cs = some (x, rest)) :
    x = ws ∧ cs = ws ++ rest := by
  fun_induction exactly ws cs generalizing x rest with
  | case1 cs => simp_all
  | case2 => simp at h
  | case3 ws c cs ih =>
    obtain ⟨⟨y, rest'⟩, hy, heq⟩ := Option.map_eq_some_iff.mp h
    simp only [Prod.mk.injEq] at heq
    obtain ⟨rfl, rfl⟩ := heq
    obtain ⟨rfl, rfl⟩ := ih hy
    exact ⟨rfl, rfl⟩
  | case4 => simp at h

instance splits_exactly (ws : List Char) : Splits (exactly ws) where
  eq_append {cs x rest} h := by
    obtain ⟨rfl, hcs⟩ := exactly_eq_some h
    exact hcs

instance splits_run (p : Char → Bool) : Splits (run p) where
  eq_append {cs x rest} h := by
    simp only [run, Option.some.injEq, Prod.mk.injEq] at h
    rw [← h.1, ← h.2, List.takeWhile_append_dropWhile]

instance splits_run1 (p : Char → Bool) : Splits (run1 p) where
  eq_append {cs x rest} h := by
    unfold run1 at h
    split at h
    · simp at h
    · simp only [Option.some.injEq, Prod.mk.injEq] at h
      rw [← h.1, ← h.2, List.takeWhile_append_dropWhile]

instance splits_atMost (p : Char → Bool) (n : Nat) : Splits (atMost p n) where
  eq_append {cs x rest} h := by
    unfold atMost at h
    split at h
    · simp at h
    · simp only [Option.some.injEq, Prod.mk.injEq] at h
      obtain ⟨rfl, rfl⟩ := h
      have hpre : (cs.take n).takeWhile p <+: cs :=
        (List.takeWhile_prefix p).trans (List.take_prefix n cs)
      exact (List.prefix_iff_eq_append.mp hpre).symm

theorem upTo_append (r : Reader) [hr : Splits r] (budget cs : List Char) :
    (upTo r budget cs).1 ++ (upTo r budget cs).2 = cs := by
  induction budget generalizing cs with
  | nil => rfl
  | cons b budget ih =>
    unfold upTo
    cases hp : r cs with
    | none => rfl
    | some p =>
      obtain ⟨x, rest⟩ := p
      simp only [List.append_assoc, ih rest]
      exact (hr.eq_append hp).symm

instance splits_many (r : Reader) [Splits r] : Splits (fun cs => some (many r cs)) where
  eq_append {cs x rest} h := by
    have hx := upTo_append r cs cs
    simp only [Option.some.injEq] at h
    simp only [many] at h
    rw [h] at hx
    exact hx.symm

instance splits_some1 (r : Reader) [hr : Splits r] : Splits (some1 r) where
  eq_append {cs x rest} h := by
    simp only [some1, Option.map_eq_some_iff, Prod.mk.injEq] at h
    obtain ⟨⟨y, mid⟩, hy, rfl, rfl⟩ := h
    rw [hr.eq_append hy, List.append_assoc]
    exact congrArg (y ++ ·) (upTo_append r mid mid).symm

theorem starts_char {p q : Char → Bool} (hp : ∀ c, p c = true → q c = true) : Starts q (char p) where
  starts {cs x rest} h := by
    cases cs with
    | nil => simp [char] at h
    | cons c cs =>
      by_cases hc : p c = true
      · simp only [char, if_pos hc, Option.some.injEq, Prod.mk.injEq] at h
        exact ⟨c, [], h.1.symm, hp c hc⟩
      · simp [char, hc] at h

instance starts_andThen (p : Char → Bool) (r q : Reader) [hr : Starts p r] : Starts p (andThen r q) where
  starts {cs x rest} h := by
    simp only [andThen, Option.bind_eq_some_iff, Option.map_eq_some_iff, Prod.mk.injEq] at h
    obtain ⟨⟨y, mid⟩, hy, ⟨⟨z, rest'⟩, hz, rfl, rfl⟩⟩ := h
    obtain ⟨c, y', rfl, hc⟩ := hr.starts hy
    exact ⟨c, y' ++ z, rfl, hc⟩

instance starts_orElse (p : Char → Bool) (r q : Reader) [hr : Starts p r] [hq : Starts p q] :
    Starts p (orElse r q) where
  starts {cs x rest} h := by
    unfold orElse at h
    split at h
    · next hp => exact hr.starts (hp.trans h)
    · exact hq.starts h

theorem starts_exactly {p : Char → Bool} {c : Char} {ws : List Char} (hc : p c = true) :
    Starts p (exactly (c :: ws)) where
  starts {cs x rest} h := by
    obtain ⟨rfl, -⟩ := exactly_eq_some h
    exact ⟨c, ws, rfl, hc⟩

end Reader

open Reader

instance splits_codePointEscape : Splits codePointEscape := by
  unfold codePointEscape
  infer_instance

instance splits_word : Splits word := by
  unfold word
  infer_instance

instance splits_privateName : Splits privateName := by
  unfold privateName
  infer_instance

instance splits_digits (p : Char → Bool) : Splits (digits p) := by
  unfold digits
  infer_instance

instance splits_exponent : Splits exponent := by
  unfold exponent
  infer_instance

instance splits_basedNumber (mark : Char) (p : Char → Bool) : Splits (basedNumber mark p) := by
  unfold basedNumber
  infer_instance

instance splits_wholeNumber : Splits wholeNumber where
  eq_append {cs x rest} h := by
    simp only [wholeNumber, Option.bind_eq_some_iff, Option.map_eq_some_iff, Prod.mk.injEq] at h
    obtain ⟨⟨y, mid⟩, hy, ⟨⟨z, rest'⟩, hz, rfl, rfl⟩⟩ := h
    have hmid : mid = z ++ rest' := by
      split at hz
      · exact Splits.eq_append hz
      · exact Splits.eq_append hz
    rw [Splits.eq_append hy, hmid, List.append_assoc]

instance splits_number : Splits number := by
  unfold number
  infer_instance

instance splits_escape : Splits escape := by
  unfold escape
  infer_instance

instance splits_quoted : Splits quoted := by
  unfold quoted quotedBy
  infer_instance

instance splits_regexClass : Splits regexClass := by
  unfold regexClass
  infer_instance

instance splits_regex : Splits regex := by
  unfold regex
  infer_instance

instance splits_markupEntity : Splits markupEntity := by
  unfold markupEntity
  infer_instance

instance splits_markupText : Splits markupText := by
  unfold markupText
  infer_instance

instance splits_hyphenName : Splits hyphenName := by
  unfold hyphenName
  infer_instance

instance splits_markupString : Splits markupString := by
  unfold markupString markupStringBy
  infer_instance

instance splits_arrowComment : Splits arrowComment := by
  unfold arrowComment
  infer_instance

instance splits_scriptLine : Splits scriptLine := by
  unfold scriptLine
  infer_instance

instance splits_templateText : Splits templateText := by
  unfold templateText
  refine @splits_some1 _ ⟨?_⟩
  intro cs x rest h
  split at h
  · simp at h
  · split at h
    · simp at h
    · simp only [Option.some.injEq, Prod.mk.injEq] at h
      rw [← h.1, ← h.2]
      rfl
  · simp at h

instance splits_blockTail : Splits blockTail where
  eq_append {cs x rest} h := by
    fun_induction blockTail cs generalizing x rest with
    | case1 => simp at h
    | case2 cs =>
      simp only [Option.some.injEq, Prod.mk.injEq] at h
      rw [← h.1, ← h.2]
      rfl
    | case3 c cs _ hc ih =>
      obtain ⟨⟨y, rest'⟩, hy, heq⟩ := Option.map_eq_some_iff.mp h
      simp only [Prod.mk.injEq] at heq
      rw [← heq.1, ← heq.2, ih hy]
      rfl
    | case4 => simp at h

instance splits_comment : Splits comment where
  eq_append {cs x rest} h := by
    unfold comment at h
    split at h
    · obtain ⟨⟨y, rest'⟩, hy, heq⟩ := Option.map_eq_some_iff.mp h
      simp only [Prod.mk.injEq] at heq
      rw [← heq.1, ← heq.2, Splits.eq_append hy]
      rfl
    · obtain ⟨⟨y, rest'⟩, hy, heq⟩ := Option.map_eq_some_iff.mp h
      simp only [Prod.mk.injEq] at heq
      rw [← heq.1, ← heq.2, Splits.eq_append hy]
      rfl
    · simp at h

instance splits_operator : Splits operator where
  eq_append {cs x rest} h := by
    unfold operator at h
    split at h
    · split at h
      · simp only [Option.some.injEq, Prod.mk.injEq] at h
        rw [← h.1, ← h.2]
        rfl
      · exact Splits.eq_append h
    · split at h
      · exact Splits.eq_append h
      · exact Splits.eq_append h

instance splits_only (r : Reader) (p : List Char → Bool) [hr : Splits r] : Splits (Token.only r p) where
  eq_append h := hr.eq_append (Option.filter_eq_some_iff.mp h).1

instance splits_markReader (text stops : List Char) : Splits (Token.markReader text stops) where
  eq_append h := Splits.eq_append (Option.filter_eq_some_iff.mp h).1

instance starts_word : Starts (fun c => isWordStart c || c = '\\') word := by
  have hstart : Starts (fun c => isWordStart c || c = '\\') (char isWordStart) :=
    starts_char (by simp +contextual)
  have hescape : Starts (fun c => isWordStart c || c = '\\') codePointEscape :=
    @starts_orElse _ _ _ (@starts_andThen _ _ _ (starts_exactly (by decide)))
      (@starts_andThen _ _ _ (starts_exactly (by decide)))
  unfold word
  infer_instance

instance starts_privateName : Starts (· = '#') privateName :=
  @starts_andThen _ _ _ (starts_char (by simp))

instance starts_number : Starts (fun c => c.isDigit || c = '.') number := by
  have hzero : Starts (fun c => c.isDigit || c = '.') (char (· = '0')) :=
    starts_char fun c hc => by
      obtain rfl : c = '0' := by simpa using hc
      rfl
  have hpoint : Starts (fun c => c.isDigit || c = '.') (char (· = '.')) :=
    starts_char (by simp +contextual)
  have hdigits : Starts (fun c => c.isDigit || c = '.') (digits Char.isDigit) :=
    @starts_andThen _ _ _ (starts_char (by simp +contextual))
  have hwhole : Starts (fun c => c.isDigit || c = '.') wholeNumber := by
    constructor
    intro cs x rest h
    simp only [wholeNumber, Option.bind_eq_some_iff, Option.map_eq_some_iff, Prod.mk.injEq] at h
    obtain ⟨⟨y, mid⟩, hy, ⟨⟨z, rest'⟩, hz, rfl, rfl⟩⟩ := h
    obtain ⟨c, y', rfl, hc⟩ := hdigits.starts hy
    exact ⟨c, y' ++ z, rfl, hc⟩
  unfold number basedNumber
  infer_instance

instance starts_quoted : Starts (fun c => c = '"' || c = '\x27') quoted :=
  @starts_orElse _ _ _ (@starts_andThen _ _ _ (starts_char (by simp +contextual)))
    (@starts_andThen _ _ _ (starts_char (by simp +contextual)))

instance starts_regex : Starts (· = '/') regex :=
  @starts_andThen _ _ _ (starts_char (by simp))

instance starts_hyphenName : Starts (fun c => c.isAlpha || c = '_' || c = '$') hyphenName :=
  @starts_andThen _ _ _ (starts_char (by simp))

instance starts_markupString : Starts (fun c => c = '"' || c = '\x27') markupString :=
  @starts_orElse _ _ _ (@starts_andThen _ _ _ (starts_char (by simp +contextual)))
    (@starts_andThen _ _ _ (starts_char (by simp +contextual)))

instance starts_arrowComment : Starts (fun c => c = '<' || c = '-') arrowComment :=
  @starts_andThen _ _ _ (@starts_orElse _ _ _ (starts_exactly (by decide)) (starts_exactly (by decide)))

instance starts_scriptLine : Starts (· = '#') scriptLine :=
  @starts_andThen _ _ _ (starts_exactly (by decide))

end SignatureDocs.Grammar
