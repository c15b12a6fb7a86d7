import SignatureDocs.Proofs.Grammar.Nesting

/-!
Reading has steps enough. Between two lexemes a rule goes only so deep, and the text bounds the number of lexemes;
so a file is read or refused, and never given up. More steps than needed change nothing.
-/
namespace SignatureDocs.Grammar

open SignatureDocs.Text

variable {P : Type} {source : List Char}

namespace Rule

/-- Steps that a rule is nested in before it takes a lexeme, given those of the phrases it refers to. -/
def rank (height : P → Nat) : Rule P → Nat
  | token _ | nothing => 1
  | phrase p => height p + 1
  | both a b => max (a.rank height) (if a.firm then 0 else b.rank height) + 1
  | either a b => max (a.rank height) (b.rank height) + 1
  | many a | ahead a | absent a | node _ a => a.rank height + 1

/-- What is read behind a lexeme by a part of the rule is nested in at most `limit` steps up to the next one. What
is read to look ahead makes parts as all other rules do, though they are dropped. -/
def ranked (f : Profile P) (height : P → Nat) (limit : Nat) : Rule P → Bool
  | token _ | phrase _ | nothing => true
  | both a b => b.rank height ≤ limit && a.ranked f height limit && b.ranked f height limit
  | either a b => a.ranked f height limit && b.ranked f height limit
  | many a => (many a).rank height ≤ limit && a.ranked f height limit
  | ahead a | absent a => a.fit f && a.ranked f height limit
  | node _ a => a.ranked f height limit

end Rule

theorem Outcome.reaching_ne_exhausted {o : Outcome} (h : o ≠ .exhausted) (r : Reach) :
    o.reaching r ≠ .exhausted := by
  cases o with
  | exhausted => exact absurd rfl h
  | _ => simp [Outcome.reaching]

theorem Outcome.after_ne_exhausted {o : Outcome} (h : o ≠ .exhausted) (ts : List Tree) :
    o.after ts ≠ .exhausted := by
  cases o with
  | exhausted => exact absurd rfl h
  | _ => simp [Outcome.after]

/-- Reading that is not given up comes to the same with one step more. -/
theorem Rule.read_succ (grammar : P → Rule P) (n : Nat) (rule : Rule P) (c : Cursor)
    (h : Rule.read grammar n rule c ≠ .exhausted) :
    Rule.read grammar (n + 1) rule c = Rule.read grammar n rule c := by
  induction n generalizing rule c with
  | zero => simp [Rule.read] at h
  | succ n ih =>
    cases rule with
    | token t => rfl
    | nothing => rfl
    | phrase p => exact ih (grammar p) c h
    | both a b =>
      rw [Rule.read] at h
      have ha : Rule.read grammar n a c ≠ .exhausted := by
        intro hex
        simp [hex] at h
      rw [Rule.read, Rule.read, ih a c ha]
      cases hread : Rule.read grammar n a c with
      | accepted ts c' r =>
        have hb : Rule.read grammar n b c' ≠ .exhausted := by
          intro hex
          simp [hread, hex, Outcome.after, Outcome.reaching] at h
        simp only [ih b c' hb]
      | refused r => rfl
      | exhausted => exact absurd hread ha
    | either a b =>
      rw [Rule.read] at h
      have ha : Rule.read grammar n a c ≠ .exhausted := by
        intro hex
        simp [hex] at h
      rw [Rule.read, Rule.read, ih a c ha]
      cases hread : Rule.read grammar n a c with
      | accepted ts c' r => rfl
      | refused r =>
        have hb : Rule.read grammar n b c ≠ .exhausted := by
          intro hex
          simp [hread, hex, Outcome.reaching] at h
        simp only [ih b c hb]
      | exhausted => exact absurd hread ha
    | many a =>
      rw [Rule.read] at h
      have ha : Rule.read grammar n a c ≠ .exhausted := by
        intro hex
        simp [hex] at h
      rw [Rule.read, Rule.read, ih a c ha]
      cases hread : Rule.read grammar n a c with
      | accepted ts c' r =>
        by_cases hlt : c.last.offset < c'.last.offset
        · have hb : Rule.read grammar n (.many a) c' ≠ .exhausted := by
            intro hex
            simp [hread, hlt, hex, Outcome.after, Outcome.reaching] at h
          simp only [ih (.many a) c' hb]
        · simp [hlt]
      | refused r => rfl
      | exhausted => exact absurd hread ha
    | ahead a | absent a | node p a =>
      rw [Rule.read] at h
      have ha : Rule.read grammar n a c ≠ .exhausted := by
        intro hex
        simp [hex] at h
      rw [Rule.read, Rule.read, ih a c ha]

theorem Rule.read_mono {grammar : P → Rule P} {n m : Nat} {rule : Rule P} {c : Cursor} (hle : n ≤ m)
    (h : Rule.read grammar n rule c ≠ .exhausted) :
    Rule.read grammar m rule c = Rule.read grammar n rule c := by
  induction m, hle using Nat.le_induction with
  | base => rfl
  | succ m _ ih => rw [Rule.read_succ grammar m rule c (by rw [ih]; exact h), ih]

/-- A lexeme that was taken leaves less of the text. -/
theorem Cursor.On.length_lt {c c' : Cursor} (hc : c.On source) (hc' : c'.On source)
    (hlt : c.last.offset < c'.last.offset) : c'.last.text.length < c.last.text.length := by
  obtain ⟨xs, hxs, hlen⟩ := dropBytes?_between hc.last hc'.last hlt.le
  have hne : xs ≠ [] := by
    rintro rfl
    simp only [byteLength_nil] at hlen
    omega
  rw [hxs, List.length_append]
  have hpos := List.length_pos_of_ne_nil hne
  omega

theorem Cursor.On.length_le {c c' : Cursor} (hc : c.On source) (hc' : c'.On source)
    (hle : c.last.offset ≤ c'.last.offset) : c'.last.text.length ≤ c.last.text.length := by
  obtain ⟨xs, hxs, -⟩ := dropBytes?_between hc.last hc'.last hle
  rw [hxs, List.length_append]
  omega

theorem Rule.rank_pos (height : P → Nat) (rule : Rule P) : 0 < rule.rank height := by
  cases rule <;> simp [Rule.rank]

/-- Reading is not given up if it may nest as deep as the rule does before its first lexeme and `limit` steps
more for each character. -/
theorem Rule.read_ne_exhausted {f : Profile P} {grammar : P → Rule P} {height : P → Nat} {limit : Nat}
    (hg : ∀ p, f.holds grammar p = true) (hheight : ∀ p, (grammar p).rank height ≤ height p)
    (hlimit : ∀ p, (grammar p).ranked f height limit = true) (n : Nat) {rule : Rule P} {c : Cursor}
    (hfit : rule.fit f = true) (hranked : rule.ranked f height limit = true) (hc : c.On source)
    (hn : rule.rank height + limit * c.last.text.length ≤ n) :
    Rule.read grammar n rule c ≠ .exhausted := by
  induction n generalizing rule c with
  | zero =>
    have hpos := rule.rank_pos height
    omega
  | succ n ih =>
    -- behind a lexeme there are `limit` steps for the next one
    have hbehind {b : Rule P} {c' : Cursor} (hb : b.fit f = true) (hbr : b.ranked f height limit = true)
        (hrank : b.rank height ≤ limit) (hc' : c'.On source) (hlt : c.last.offset < c'.last.offset) :
        Rule.read grammar n b c' ≠ .exhausted := by
      have hmul : limit * (c'.last.text.length + 1) ≤ limit * c.last.text.length :=
        Nat.mul_le_mul_left limit (hc.length_lt hc' hlt)
      have hpos := rule.rank_pos height
      rw [Nat.mul_succ] at hmul
      exact ih hb hbr hc' (by omega)
    cases rule with
    | token t =>
      rw [Rule.read]
      split <;> simp
    | nothing => simp [Rule.read]
    | phrase p =>
      have hp := hg p
      simp only [Profile.holds, Bool.and_eq_true] at hp
      have hp' := hheight p
      rw [Rule.rank] at hn
      exact ih hp.1.1.1.2 (hlimit p) hc (by omega)
    | both a b =>
      simp only [Rule.fit, Bool.and_eq_true] at hfit
      simp only [Rule.ranked, Bool.and_eq_true, decide_eq_true_eq] at hranked
      have hmax : (Rule.both a b).rank height =
        max (a.rank height) (if a.firm then 0 else b.rank height) + 1 := rfl
      have ha := ih hfit.1 hranked.1.2 hc (by omega)
      rw [Rule.read]
      cases hread : Rule.read grammar n a c with
      | accepted ts c' r =>
        have hreading := (Rule.accepts_of_read n hread).reading hg hfit.1 hc
        have hb : Rule.read grammar n b c' ≠ .exhausted := by
          by_cases hfirm : a.firm = true
          · have hlt := (hreading.firm hfirm).1.1
            exact hbehind hfit.2 hranked.2 hranked.1.1 hreading.on (hc.next.2.trans_lt hlt)
          · have hmul := Nat.mul_le_mul_left limit (hc.length_le hreading.on hreading.le)
            rw [if_neg hfirm] at hmax
            exact ih hfit.2 hranked.2 hreading.on (by omega)
        exact Outcome.reaching_ne_exhausted (Outcome.after_ne_exhausted hb ts) r
      | refused r => simp
      | exhausted => exact absurd hread ha
    | either a b =>
      simp only [Rule.fit, Bool.and_eq_true] at hfit
      simp only [Rule.ranked, Bool.and_eq_true] at hranked
      have hmax : (Rule.either a b).rank height = max (a.rank height) (b.rank height) + 1 := rfl
      have ha := ih hfit.1 hranked.1 hc (by omega)
      have hb := ih hfit.2 hranked.2 hc (by omega)
      rw [Rule.read]
      cases hread : Rule.read grammar n a c with
      | accepted ts c' r => simp
      | refused r => exact Outcome.reaching_ne_exhausted hb r
      | exhausted => exact absurd hread ha
    | many a =>
      have hitem : a.fit f = true := hfit
      have hmany : (Rule.many a).rank height ≤ limit ∧ a.ranked f height limit = true := by
        simpa [Rule.ranked] using hranked
      have hmax : (Rule.many a).rank height = a.rank height + 1 := rfl
      have ha := ih hitem hmany.2 hc (by omega)
      rw [Rule.read]
      cases hread : Rule.read grammar n a c with
      | accepted ts c' r =>
        have hon := ((Rule.accepts_of_read n hread).reading hg hitem hc).on
        by_cases hlt : c.last.offset < c'.last.offset
        · have hb := hbehind hfit hranked hmany.1 hon hlt
          simp only [if_pos hlt]
          exact Outcome.reaching_ne_exhausted (Outcome.after_ne_exhausted hb ts) r
        · simp [hlt]
      | refused r => simp
      | exhausted => exact absurd hread ha
    | ahead a | absent a =>
      simp only [Rule.ranked, Bool.and_eq_true] at hranked
      rw [Rule.rank] at hn
      have ha := ih hranked.1 hranked.2 hc (by omega)
      rw [Rule.read]
      cases hread : Rule.read grammar n a c with
      | exhausted => exact absurd hread ha
      | _ => simp
    | node p a =>
      simp only [Rule.fit, Bool.and_eq_true] at hfit
      rw [Rule.rank] at hn
      have ha := ih hfit.1.1 hranked hc (by omega)
      rw [Rule.read]
      cases hread : Rule.read grammar n a c with
      | exhausted => exact absurd hread ha
      | _ => simp

/-- Steps that each phrase of a declaration file is nested in before it takes a lexeme, at most. -/
def height : Phrase → Nat
  | .statement => 90
  | .expressions _ => 70
  | .expression _ => 60
  | .operand _ => 50
  | .unary _ | .typeExpr _ => 40
  | .atom _ | .typeOperand _ | .typeMember | .classItem => 30
  | .suffix _ | .typeElement _ | .callSignature _ | .classBody | .declaration => 20
  | _ => 10

theorem height_holds (d : Dialect) (p : Phrase) : (rules d p).rank height ≤ height p ∧
    (rules d p).ranked profile height 400 = true := by
  cases d <;> cases p with
  | typeExpr line | typeOperand line | typeElement line | callSignature line | block line =>
    cases line <;> decide +kernel
  | expression s | operand s | unary s | atom s | suffix s | expressions s =>
    obtain ⟨line, typed, head⟩ := s
    cases line <;> cases typed <;> cases head <;> decide +kernel
  | _ => decide +kernel

/-- A file is read or refused; its steps never run out. -/
theorem readFile_ne_exhausted (d : Dialect) (source : List Char) : readFile d source ≠ .exhausted := by
  have hrank : program.rank height ≤ 800 := by decide +kernel
  have hranked : program.ranked profile height 400 = true := by decide +kernel
  have hlength : (Cursor.start source).last.text.length = source.length := rfl
  apply Rule.read_ne_exhausted (profile_holds d) (fun p => (height_holds d p).1)
    (fun p => (height_holds d p).2) _ program_fit hranked (Cursor.On.start source)
  rw [hlength, budget]
  omega

end SignatureDocs.Grammar
