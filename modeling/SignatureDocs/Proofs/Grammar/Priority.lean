import SignatureDocs.Proofs.Grammar.Naming
import SignatureDocs.Proofs.Grammar.Scan

/-!
Reading with what was tried before. An alternative is taken only where those before it refuse, so what a rule reads at
a place is settled by the text there, and a part of a tree tells what the text is not as well as what it is.
-/
namespace SignatureDocs.Grammar

open SignatureDocs.Text

variable {P : Type} {source : List Char}

theorem Refuses.of_token {grammar : P → Rule P} {t : Token} {c : Cursor} (h : Refuses grammar (.token t) c) :
    t.read? c = none := by
  obtain ⟨n, r, hread⟩ := h
  cases n with
  | zero => simp [Rule.read] at hread
  | succ n =>
    cases ht : t.read? c with
    | none => rfl
    | some c' => simp [Rule.read, ht] at hread

section Alternatives

variable {grammar : P → Rule P} {a b : Rule P} {c c' : Cursor} {ts : List Tree}

theorem Refuses.of_either (h : Refuses grammar (.either a b) c) : Refuses grammar a c ∧ Refuses grammar b c := by
  obtain ⟨n, r, hread⟩ := h
  cases n with
  | zero => simp [Rule.read] at hread
  | succ n =>
    rw [Rule.read] at hread
    cases ha : Rule.read grammar n a c with
    | accepted us c₁ q => simp [ha] at hread
    | exhausted => simp [ha] at hread
    | refused q =>
      rw [ha] at hread
      cases hb : Rule.read grammar n b c with
      | refused q' => exact ⟨⟨n, q, ha⟩, ⟨n, q', hb⟩⟩
      | _ => simp [hb, Outcome.reaching] at hread

/-- Where a choice refuses, each of its alternatives does. -/
theorem Refuses.of_any {rs : List (Rule P)} (h : Refuses grammar (.any rs) c) : ∀ r ∈ rs, Refuses grammar r c := by
  induction rs with
  | nil => simp
  | cons r rs ih =>
    cases rs with
    | nil => exact List.forall_mem_singleton.mpr h
    | cons s rs =>
      obtain ⟨hr, hrs⟩ := Refuses.of_either h
      exact List.forall_mem_cons.mpr ⟨hr, ih hrs⟩

theorem Refuses.any {rs : List (Rule P)} (h : ∀ r ∈ rs, Refuses grammar r c) : Refuses grammar (.any rs) c := by
  induction rs with
  | nil => exact .absent (.nothing grammar c)
  | cons r rs ih =>
    have hr := h r List.mem_cons_self
    cases rs with
    | nil => exact hr
    | cons s rs => exact hr.either (ih fun q hq => h q (List.mem_cons_of_mem r hq))

/-- An alternative is taken where those before it refuse. -/
theorem Takes.any {rs : List (Rule P)} (h : ∀ r ∈ rs, Refuses grammar r c) (ha : Takes grammar a c ts c')
    (more : List (Rule P)) : Takes grammar (.any (rs ++ a :: more)) c ts c' := by
  induction rs with
  | nil =>
    cases more with
    | nil => exact ha
    | cons b more => exact ha.either_left _
  | cons r rs ih =>
    have hrs := ih fun q hq => h q (List.mem_cons_of_mem r hq)
    have hr := h r List.mem_cons_self
    cases rs with
    | nil => exact .either_right hr hrs
    | cons s rs => exact .either_right hr hrs

end Alternatives

/-- The ways in which reading by a rule accepts, with the refusals and the looks ahead that led there. -/
inductive Rule.Reads (grammar : P → Rule P) : Rule P → Cursor → List Tree → Cursor → Prop
  | token {t : Token} {c c' : Cursor} (h : t.read? c = some c') : Reads grammar (.token t) c [] c'
  | phrase {p : P} {c c' : Cursor} {ts : List Tree} (h : Reads grammar (grammar p) c ts c') :
      Reads grammar (.phrase p) c ts c'
  | nothing {c : Cursor} : Reads grammar .nothing c [] c
  | both {a b : Rule P} {c c₁ c' : Cursor} {ts us : List Tree} (ha : Reads grammar a c ts c₁)
      (hb : Reads grammar b c₁ us c') : Reads grammar (.both a b) c (ts ++ us) c'
  | left {a b : Rule P} {c c' : Cursor} {ts : List Tree} (h : Reads grammar a c ts c') :
      Reads grammar (.either a b) c ts c'
  | right {a b : Rule P} {c c' : Cursor} {ts : List Tree} (hno : Refuses grammar a c)
      (h : Reads grammar b c ts c') : Reads grammar (.either a b) c ts c'
  | manyNil {a : Rule P} {c : Cursor} (hno : Refuses grammar a c) : Reads grammar (.many a) c [] c
  /-- An item that takes nothing is not counted. -/
  | manyIdle {a : Rule P} {c c₁ : Cursor} {ts : List Tree} (ha : Reads grammar a c ts c₁)
      (hle : ¬ c.last.offset < c₁.last.offset) : Reads grammar (.many a) c [] c
  | manyCons {a : Rule P} {c c₁ c' : Cursor} {ts us : List Tree} (ha : Reads grammar a c ts c₁)
      (hlt : c.last.offset < c₁.last.offset) (hb : Reads grammar (.many a) c₁ us c') :
      Reads grammar (.many a) c (ts ++ us) c'
  | ahead {a : Rule P} {c c₁ : Cursor} {ts : List Tree} (h : Reads grammar a c ts c₁) :
      Reads grammar (.ahead a) c [] c
  | absent {a : Rule P} {c : Cursor} (hno : Refuses grammar a c) : Reads grammar (.absent a) c [] c
  | node {part : Part} {a : Rule P} {c c' : Cursor} {ts : List Tree} (h : Reads grammar a c ts c') :
      Reads grammar (.node part a) c [.node part ⟨c.next.offset, c'.last.offset⟩ ts] c'

theorem Rule.reads_of_read {grammar : P → Rule P} (n : Nat) {rule : Rule P} {c c' : Cursor} {ts : List Tree}
    {r : Reach} (h : Rule.read grammar n rule c = .accepted ts c' r) : rule.Reads grammar c ts c' := by
  induction n generalizing rule c c' ts r with
  | zero => simp [Rule.read] at h
  | succ n ih =>
    cases rule with
    | token t =>
      rw [Rule.read] at h
      cases hread : t.read? c with
      | none => simp [hread] at h
      | some c₁ =>
        simp only [hread, Outcome.accepted.injEq] at h
        obtain ⟨rfl, rfl, -⟩ := h
        exact .token hread
    | phrase p => exact .phrase (ih h)
    | nothing =>
      simp only [Rule.read, Outcome.accepted.injEq] at h
      obtain ⟨rfl, rfl, -⟩ := h
      exact .nothing
    | both a b =>
      rw [Rule.read] at h
      cases ha : Rule.read grammar n a c with
      | accepted us c₁ q =>
        rw [ha] at h
        obtain ⟨vs, q', hb, rfl⟩ := Outcome.after_reaching_eq_accepted h
        exact .both (ih ha) (ih hb)
      | _ => simp [ha] at h
    | either a b =>
      rw [Rule.read] at h
      cases ha : Rule.read grammar n a c with
      | accepted us c₁ q =>
        rw [ha] at h
        exact .left (ih (ha.trans h))
      | refused q =>
        rw [ha] at h
        obtain ⟨q', hb⟩ := Outcome.reaching_eq_accepted h
        exact .right ⟨n, q, ha⟩ (ih hb)
      | exhausted => simp [ha] at h
    | many a =>
      rw [Rule.read] at h
      cases ha : Rule.read grammar n a c with
      | accepted us c₁ q =>
        simp only [ha] at h
        split at h
        · next hlt =>
          obtain ⟨vs, q', hb, rfl⟩ := Outcome.after_reaching_eq_accepted h
          exact .manyCons (ih ha) hlt (ih hb)
        · next hle =>
          obtain ⟨rfl, rfl, -⟩ := Outcome.accepted.inj h
          exact .manyIdle (ih ha) hle
      | refused q =>
        simp only [ha, Outcome.accepted.injEq] at h
        obtain ⟨rfl, rfl, -⟩ := h
        exact .manyNil ⟨n, q, ha⟩
      | exhausted => simp [ha] at h
    | ahead a =>
      rw [Rule.read] at h
      cases ha : Rule.read grammar n a c with
      | accepted us c₁ q =>
        simp only [ha, Outcome.accepted.injEq] at h
        obtain ⟨rfl, rfl, -⟩ := h
        exact .ahead (ih ha)
      | _ => simp [ha] at h
    | absent a =>
      rw [Rule.read] at h
      cases ha : Rule.read grammar n a c with
      | refused q =>
        simp only [ha, Outcome.accepted.injEq] at h
        obtain ⟨rfl, rfl, -⟩ := h
        exact .absent ⟨n, q, ha⟩
      | _ => simp [ha] at h
    | node part a =>
      rw [Rule.read] at h
      cases ha : Rule.read grammar n a c with
      | accepted us c₁ q =>
        simp only [ha, Outcome.accepted.injEq] at h
        obtain ⟨rfl, rfl, -⟩ := h
        exact .node (ih ha)
      | _ => simp [ha] at h

namespace Rule.Reads

variable {grammar : P → Rule P} {rule : Rule P} {c c' : Cursor} {ts : List Tree}

theorem accepts (h : rule.Reads grammar c ts c') : rule.Accepts grammar c ts c' := by
  induction h with
  | token h => exact .token h
  | phrase _ ih => exact .phrase ih
  | nothing => exact .nothing
  | both _ _ iha ihb => exact .both iha ihb
  | left _ ih => exact .left ih
  | right _ _ ih => exact .right ih
  | manyNil | manyIdle => exact .manyNil
  | manyCons _ hlt _ iha ihb => exact .manyCons iha hlt ihb
  | ahead => exact .ahead
  | absent => exact .absent
  | node _ ih => exact .node ih

theorem on (h : rule.Reads grammar c ts c') (hc : c.On source) : c'.On source := h.accepts.on hc

theorem le (h : rule.Reads grammar c ts c') (hc : c.On source) : c.last.offset ≤ c'.last.offset := h.accepts.le hc

section Inversion

variable {a b : Rule P}

theorem of_token {t : Token} (h : (Rule.token t).Reads grammar c ts c') : ts = [] ∧ t.read? c = some c' := by
  cases h with
  | token hread => exact ⟨rfl, hread⟩

theorem of_phrase {p : P} (h : (Rule.phrase p).Reads grammar c ts c') : (grammar p).Reads grammar c ts c' := by
  cases h with
  | phrase h => exact h

theorem of_both (h : (Rule.both a b).Reads grammar c ts c') :
    ∃ us c₁ vs, a.Reads grammar c us c₁ ∧ b.Reads grammar c₁ vs c' ∧ ts = us ++ vs := by
  cases h with
  | both ha hb => exact ⟨_, _, _, ha, hb, rfl⟩

theorem of_either (h : (Rule.either a b).Reads grammar c ts c') :
    a.Reads grammar c ts c' ∨ Refuses grammar a c ∧ b.Reads grammar c ts c' := by
  cases h with
  | left h => exact Or.inl h
  | right hno h => exact Or.inr ⟨hno, h⟩

theorem of_ahead (h : (Rule.ahead a).Reads grammar c ts c') : ts = [] ∧ c' = c := by
  cases h with
  | ahead => exact ⟨rfl, rfl⟩

theorem of_absent (h : (Rule.absent a).Reads grammar c ts c') : ts = [] ∧ c' = c ∧ Refuses grammar a c := by
  cases h with
  | absent hno => exact ⟨rfl, rfl, hno⟩

end Inversion

/-- What is said of all parts in the rules, with the rules for what is in them, is said of all parts of a tree, with
how they were read. -/
theorem parts (made : Part → Rule P → Prop) (hgrammar : ∀ p, ∀ q ∈ (grammar p).parts, made q.1 q.2)
    (h : rule.Reads grammar c ts c') (hrule : ∀ q ∈ rule.parts, made q.1 q.2) (hc : c.On source) :
    ∀ t ∈ Tree.preorderAll ts, ∃ a c c', made t.part a ∧ c.On source ∧ a.Reads grammar c t.children c' ∧
      t.span = ⟨c.next.offset, c'.last.offset⟩ := by
  induction h with
  | token | nothing | manyNil | manyIdle | ahead | absent => simp [Tree.preorderAll]
  | @phrase p _ _ _ _ ih => exact ih (hgrammar p) hc
  | left _ ih => exact ih (fun q hq => hrule q (List.mem_append_left _ hq)) hc
  | right _ _ ih => exact ih (fun q hq => hrule q (List.mem_append_right _ hq)) hc
  | both ha _ iha ihb =>
    intro t ht
    rw [preorderAll_append, List.mem_append] at ht
    rcases ht with ht | ht
    · exact iha (fun q hq => hrule q (List.mem_append_left _ hq)) hc t ht
    · exact ihb (fun q hq => hrule q (List.mem_append_right _ hq)) (ha.on hc) t ht
  | manyCons ha _ _ iha ihb =>
    intro t ht
    rw [preorderAll_append, List.mem_append] at ht
    rcases ht with ht | ht
    · exact iha hrule hc t ht
    · exact ihb hrule (ha.on hc) t ht
  | @node part a c c' ts ha ih =>
    intro t ht
    simp only [Tree.preorderAll, Tree.preorder, List.append_nil, List.mem_cons] at ht
    rcases ht with rfl | ht
    · exact ⟨a, c, c', hrule _ List.mem_cons_self, hc, ha, rfl⟩
    · exact ih (fun q hq => hrule q (List.mem_cons_of_mem _ hq)) hc t ht

end Rule.Reads

end SignatureDocs.Grammar
