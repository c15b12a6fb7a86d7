import SignatureDocs.Proofs.Grammar.Profile

/-!
The trees that reading makes are well nested: parts side by side do not overlap and come in the order of the
text, the parts inside another lie between its ends, and the parts of a declaration are where an outline looks
for them. What a rule is claimed to do without reading is what it does.
-/
namespace SignatureDocs.Grammar

open SignatureDocs.Text

/-- Is a tree a member of a body? -/
def Tree.isMember (t : Tree) : Bool :=
  match t.part with
  | .member _ => true
  | _ => false

/-- Each decorator stands right before another or before a member. -/
def Orderly : List Tree → Prop
  | [] => True
  | t :: ts =>
    (t.part = .decorator → ∃ u us, ts = u :: us ∧ (u.part = .decorator ∨ u.isMember = true)) ∧
      Orderly ts

/-- A tree is a bare mark, or some lexeme between its end and the offset `hi` starts with a solid character. -/
def Capped (source : List Char) (hi : Nat) (t : Tree) : Prop :=
  t.part = .member .other ∧ t.children = [] ∨ ∃ q, t.span.stop ≤ q ∧ q < hi ∧ SolidAt source q

/-- What a part of the tree is, apart from the parts inside it. -/
structure Fits (source : List Char) (part : Part) (span : Span) (children : List Tree) : Prop where
  nonempty : span.start < span.stop
  start_isSome : (dropBytes? source span.start).isSome
  stop_isSome : (dropBytes? source span.stop).isSome
  solid : part ≠ .separator → SolidAt source span.start
  /-- A separator is one byte and not blank. -/
  separator : part = .separator → span.stop = span.start + 1 ∧
    ∃ c rest, dropBytes? source span.start = some (c :: rest) ∧ c ≠ ' ' ∧ c ≠ '\t'
  orderly : part = .body → Orderly children
  capped : part = .body → ∀ t ∈ children, Capped source span.stop t
  endsInBody : ∀ kind, part = .declaration kind →
    ∃ front last, children = front ++ [last] ∧ last.part = .body

mutual

/-- A tree that lies in the source as its part asks, with all trees inside it. -/
def Tree.Sound (source : List Char) : Tree → Prop
  | .node part span children =>
    Fits source part span children ∧ Forest source span.start span.stop children

/-- Sound trees side by side between two offsets, in the order of the text. -/
def Forest (source : List Char) (lo hi : Nat) : List Tree → Prop
  | [] => lo ≤ hi
  | t :: ts => lo ≤ t.span.start ∧ t.Sound source ∧ Forest source t.span.stop hi ts

end

variable {source : List Char}

theorem Tree.Sound.fits {t : Tree} (h : t.Sound source) : Fits source t.part t.span t.children := by
  cases t
  exact h.1

theorem Tree.Sound.forest {t : Tree} (h : t.Sound source) :
    Forest source t.span.start t.span.stop t.children := by
  cases t
  exact h.2

theorem Forest.le {lo hi : Nat} {ts : List Tree} (h : Forest source lo hi ts) : lo ≤ hi := by
  induction ts generalizing lo with
  | nil => exact h
  | cons t ts ih =>
    have hlt := h.2.1.fits.nonempty
    have hle := ih h.2.2
    have hlo := h.1
    omega

theorem Forest.weaken {lo lo' hi hi' : Nat} {ts : List Tree} (h : Forest source lo hi ts)
    (hlo : lo' ≤ lo) (hhi : hi ≤ hi') : Forest source lo' hi' ts := by
  induction ts generalizing lo lo' with
  | nil => exact hlo.trans (h.le.trans hhi)
  | cons t ts ih => exact ⟨hlo.trans h.1, h.2.1, ih h.2.2 (Nat.le_refl _)⟩

theorem Forest.append {lo mid hi : Nat} {ts us : List Tree} (ht : Forest source lo mid ts)
    (hu : Forest source mid hi us) : Forest source lo hi (ts ++ us) := by
  induction ts generalizing lo with
  | nil => exact hu.weaken ht.le (Nat.le_refl _)
  | cons t ts ih => exact ⟨ht.1, ht.2.1, ih ht.2.2⟩

theorem Forest.of_append {lo hi : Nat} {ts us : List Tree} (h : Forest source lo hi (ts ++ us)) :
    ∃ mid, Forest source lo mid ts ∧ Forest source mid hi us := by
  induction ts generalizing lo with
  | nil => exact ⟨lo, Nat.le_refl _, h⟩
  | cons t ts ih =>
    obtain ⟨mid, hts, hus⟩ := ih h.2.2
    exact ⟨mid, ⟨h.1, h.2.1, hts⟩, hus⟩

theorem Forest.mem {lo hi : Nat} {ts : List Tree} (h : Forest source lo hi ts) {t : Tree} (ht : t ∈ ts) :
    t.Sound source ∧ lo ≤ t.span.start ∧ t.span.stop ≤ hi := by
  induction ts generalizing lo with
  | nil => simp at ht
  | cons u ts ih =>
    rcases List.mem_cons.mp ht with rfl | ht
    · exact ⟨h.2.1, h.1, h.2.2.le⟩
    · obtain ⟨hsound, hlo, hhi⟩ := ih h.2.2 ht
      have hu := h.2.1.fits.nonempty
      have hlo' := h.1
      exact ⟨hsound, by omega, hhi⟩

theorem Orderly.append {ts us : List Tree} (ht : Orderly ts) (hu : Orderly us) : Orderly (ts ++ us) := by
  induction ts with
  | nil => exact hu
  | cons t ts ih =>
    refine ⟨fun hd => ?_, ih ht.2⟩
    obtain ⟨u, us', rfl, hnext⟩ := ht.1 hd
    exact ⟨u, us' ++ us, rfl, hnext⟩

/-- Decorators in front of a member are in their place. -/
theorem Orderly.decorators_append {ts us : List Tree} (ht : ∀ t ∈ ts, t.part = .decorator)
    (hu : Orderly us) (hmember : ∃ m ms, us = m :: ms ∧ m.isMember = true) : Orderly (ts ++ us) := by
  induction ts with
  | nil => exact hu
  | cons t ts ih =>
    have hrest := ih fun u hu => ht u (List.mem_cons_of_mem _ hu)
    refine ⟨fun _ => ?_, hrest⟩
    cases ts with
    | nil =>
      obtain ⟨m, ms, rfl, hm⟩ := hmember
      exact ⟨m, ms, rfl, Or.inr hm⟩
    | cons u ts =>
      exact ⟨u, ts ++ us, rfl, Or.inl (ht u (by simp))⟩

variable {P : Type}

theorem Outcome.after_reaching_eq_accepted {o : Outcome} {ts vs : List Tree} {c' : Cursor} {r r' : Reach}
    (h : (o.after ts).reaching r = .accepted vs c' r') :
    ∃ us q, o = .accepted us c' q ∧ vs = ts ++ us := by
  cases o with
  | accepted us c₁ q =>
    simp only [Outcome.after, Outcome.reaching, Outcome.accepted.injEq] at h
    exact ⟨us, q, by rw [h.2.1], h.1.symm⟩
  | refused q => simp [Outcome.after, Outcome.reaching] at h
  | exhausted => simp [Outcome.after, Outcome.reaching] at h

theorem Outcome.reaching_eq_accepted {o : Outcome} {vs : List Tree} {c' : Cursor} {r r' : Reach}
    (h : o.reaching r = .accepted vs c' r') : ∃ q, o = .accepted vs c' q := by
  cases o with
  | accepted us c₁ q =>
    simp only [Outcome.reaching, Outcome.accepted.injEq] at h
    exact ⟨q, by rw [h.1, h.2.1]⟩
  | refused q => simp [Outcome.reaching] at h
  | exhausted => simp [Outcome.reaching] at h

/-- The ways in which reading by a rule accepts, with the parts it makes and the cursor it leaves. What a look ahead
found is not kept. -/
inductive Rule.Accepts (grammar : P → Rule P) : Rule P → Cursor → List Tree → Cursor → Prop
  | token {t : Token} {c c' : Cursor} (h : t.read? c = some c') : Accepts grammar (.token t) c [] c'
  | phrase {p : P} {c c' : Cursor} {ts : List Tree} (h : Accepts grammar (grammar p) c ts c') :
      Accepts grammar (.phrase p) c ts c'
  | nothing {c : Cursor} : Accepts grammar .nothing c [] c
  | both {a b : Rule P} {c c₁ c' : Cursor} {ts us : List Tree} (ha : Accepts grammar a c ts c₁)
      (hb : Accepts grammar b c₁ us c') : Accepts grammar (.both a b) c (ts ++ us) c'
  | left {a b : Rule P} {c c' : Cursor} {ts : List Tree} (h : Accepts grammar a c ts c') :
      Accepts grammar (.either a b) c ts c'
  | right {a b : Rule P} {c c' : Cursor} {ts : List Tree} (h : Accepts grammar b c ts c') :
      Accepts grammar (.either a b) c ts c'
  | manyNil {a : Rule P} {c : Cursor} : Accepts grammar (.many a) c [] c
  | manyCons {a : Rule P} {c c₁ c' : Cursor} {ts us : List Tree} (ha : Accepts grammar a c ts c₁)
      (hlt : c.last.offset < c₁.last.offset) (hb : Accepts grammar (.many a) c₁ us c') :
      Accepts grammar (.many a) c (ts ++ us) c'
  | ahead {a : Rule P} {c : Cursor} : Accepts grammar (.ahead a) c [] c
  | absent {a : Rule P} {c : Cursor} : Accepts grammar (.absent a) c [] c
  | node {part : Part} {a : Rule P} {c c' : Cursor} {ts : List Tree} (h : Accepts grammar a c ts c') :
      Accepts grammar (.node part a) c [.node part ⟨c.next.offset, c'.last.offset⟩ ts] c'

theorem Rule.accepts_of_read {grammar : P → Rule P} (n : Nat) {rule : Rule P} {c c' : Cursor} {ts : List Tree}
    {r : Reach} (h : Rule.read grammar n rule c = .accepted ts c' r) : Rule.Accepts grammar rule c ts c' := by
  -- the budget bounds every nested step, so the induction is on it and the cases are those of the rule
  induction n generalizing rule c c' ts r with
  | zero => simp [Rule.read] at h
  | succ n ih =>
    cases rule with
    | token t =>
      simp only [Rule.read] at h
      split at h
      · next c₁ hread =>
        simp only [Outcome.accepted.injEq] at h
        rw [← h.1, ← h.2.1]
        exact .token hread
      · simp at h
    | phrase p => exact .phrase (ih h)
    | nothing =>
      simp only [Rule.read, Outcome.accepted.injEq] at h
      rw [← h.1, ← h.2.1]
      exact .nothing
    | both a b =>
      simp only [Rule.read] at h
      split at h
      · next us c₁ q ha =>
        obtain ⟨vs, q', hb, rfl⟩ := Outcome.after_reaching_eq_accepted h
        exact .both (ih ha) (ih hb)
      · next hno => exact absurd h (hno _ _ _)
    | either a b =>
      simp only [Rule.read] at h
      split at h
      · obtain ⟨q', hb⟩ := Outcome.reaching_eq_accepted h
        exact .right (ih hb)
      · exact .left (ih h)
    | many a =>
      simp only [Rule.read] at h
      split at h
      · next us c₁ q ha =>
        split at h
        · next hlt =>
          obtain ⟨vs, q', hb, rfl⟩ := Outcome.after_reaching_eq_accepted h
          exact .manyCons (ih ha) hlt (ih hb)
        · simp only [Outcome.accepted.injEq] at h
          rw [← h.1, ← h.2.1]
          exact .manyNil
      · simp only [Outcome.accepted.injEq] at h
        rw [← h.1, ← h.2.1]
        exact .manyNil
      · simp at h
    | ahead a =>
      simp only [Rule.read] at h
      split at h
      · simp only [Outcome.accepted.injEq] at h
        rw [← h.1, ← h.2.1]
        exact .ahead
      · next hno => exact absurd h (hno _ _ _)
    | absent a =>
      simp only [Rule.read] at h
      split at h
      · simp at h
      · simp only [Outcome.accepted.injEq] at h
        rw [← h.1, ← h.2.1]
        exact .absent
      · simp at h
    | node part a =>
      simp only [Rule.read] at h
      split at h
      · next us c₁ q ha =>
        simp only [Outcome.accepted.injEq] at h
        rw [← h.1, ← h.2.1]
        exact .node (ih ha)
      · next hno => exact absurd h (hno _ _ _)

/-- The rule took a lexeme at the cursor `c` before anything else. -/
def Begins (source : List Char) (c : Cursor) (ts : List Tree) (c' : Cursor) : Prop :=
  c.next.offset < c'.last.offset ∧ Forest source c.next.offset c'.last.offset ts

/-- What reading from `c` to `c'` by a rule did, given what is claimed of the rule. -/
structure Reading (source : List Char) (f : Profile P) (rule : Rule P) (c : Cursor) (ts : List Tree)
    (c' : Cursor) : Prop where
  on : c'.On source
  le : c.last.offset ≤ c'.last.offset
  forest : Forest source c.last.offset c'.last.offset ts
  firm : rule.firm = true →
    Begins source c ts c' ∧ (rule.solid f = true → SolidAt source c.next.offset)
  soft : rule.soft = true → c' = c ∧ ts = [] ∨
    Begins source c ts c' ∧ (rule.solid f = true → SolidAt source c.next.offset)
  barren : rule.barren = true → ts = []
  decorates : rule.decorates = true → ∀ t ∈ ts, t.part = .decorator
  orderly : rule.orderly = true → Orderly ts
  led : rule.led = true → Orderly ts ∧ ∃ m ms, ts = m :: ms ∧ m.isMember = true
  capped : rule.capped f = true →
    ∃ q, c.last.offset ≤ q ∧ q < c'.last.offset ∧ SolidAt source q
  closed : rule.closed f = true → ∀ t ∈ ts, Capped source c'.last.offset t
  endsInBody : rule.endsInBody f = true → ∃ front last, ts = front ++ [last] ∧ last.part = .body

namespace Reading

variable {f : Profile P} {c c₁ c' : Cursor} {ts us : List Tree}

/-- A rule that took nothing. -/
theorem idle {rule : Rule P} (hc : c.On source) (hfirm : rule.firm = false)
    (hcapped : rule.capped f = false) (hled : rule.led = false) (hends : rule.endsInBody f = false) :
    Reading source f rule c [] c where
  on := hc
  le := Nat.le_refl _
  forest := Nat.le_refl _
  firm h := by simp [hfirm] at h
  soft _ := Or.inl ⟨rfl, rfl⟩
  barren _ := rfl
  decorates _ := by simp
  orderly _ := trivial
  led h := by simp [hled] at h
  capped h := by simp [hcapped] at h
  closed _ := by simp
  endsInBody h := by simp [hends] at h

theorem token {t : Token} (hc : c.On source) (h : t.read? c = some c') :
    Reading source f (.token t) c [] c' := by
  obtain ⟨hon, hle⟩ := t.read?_on hc h
  have hlexeme (ht : t.isLexeme = true) : Begins source c [] c' ∧
      (t.isSolid = true → SolidAt source c.next.offset) := by
    obtain ⟨hlt, hsolid⟩ := Token.read?_lexeme hc ht h
    exact ⟨⟨hlt, hlt.le⟩, hsolid⟩
  refine ⟨hon, hle, hle, hlexeme, fun hs => ?_, fun _ => rfl, by simp [Rule.decorates], fun _ => trivial,
    by simp [Rule.led], fun hs => ?_, by simp, by simp [Rule.endsInBody]⟩
  · rw [Rule.soft, Bool.or_eq_true] at hs
    rcases hs with ht | ht
    · exact Or.inr (hlexeme ht)
    · exact Or.inl ⟨Token.read?_idle ht h, rfl⟩
  · rw [Rule.capped, Bool.and_eq_true] at hs
    obtain ⟨⟨hlt, -⟩, hsolid⟩ := hlexeme hs.1
    exact ⟨c.next.offset, hc.next.2, hlt, hsolid hs.2⟩

/-- A phrase is read by its rule, which bears out what is claimed of the phrase. -/
theorem phrase {grammar : P → Rule P} {p : P} (hc : c.On source) (hp : f.holds grammar p = true)
    (h : Reading source f (grammar p) c ts c') : Reading source f (.phrase p) c ts c' := by
  simp only [Profile.holds, Bool.and_eq_true, Bool.or_eq_true, Bool.not_eq_true'] at hp
  obtain ⟨⟨⟨⟨⟨hfirm, horderly⟩, -⟩, hsolid⟩, hclosed⟩, hends⟩ := hp
  have hbegins : Begins source c ts c' ∧ (f.solid p = true → SolidAt source c.next.offset) := by
    obtain ⟨hb, hs⟩ := h.firm hfirm
    refine ⟨hb, fun hfs => hs ?_⟩
    rcases hsolid with hno | hyes
    · simp [hno] at hfs
    · exact hyes
  refine ⟨h.on, h.le, h.forest, fun _ => hbegins, fun _ => Or.inr hbegins, by simp [Rule.barren],
    by simp [Rule.decorates], fun _ => h.orderly horderly, by simp [Rule.led], fun hs => ?_,
    fun hs => ?_, fun hs => ?_⟩
  · exact ⟨c.next.offset, hc.next.2, hbegins.1.1, hbegins.2 hs⟩
  · rcases hclosed with hno | hyes
    · simp [Rule.closed, hno] at hs
    · exact h.closed hyes
  · rcases hends with hno | hyes
    · simp [Rule.endsInBody, hno] at hs
    · exact h.endsInBody hyes

/-- What the first rule began is gone on with by the second. -/
theorem begins_append (hb : Begins source c ts c₁) (h : Forest source c₁.last.offset c'.last.offset us) :
    Begins source c (ts ++ us) c' :=
  ⟨hb.1.trans_le h.le, hb.2.append h⟩

theorem both {a b : Rule P} (ha : Reading source f a c ts c₁) (hb : Reading source f b c₁ us c') :
    Reading source f (.both a b) c (ts ++ us) c' := by
  -- whether the first rule took something decides where the pair begins
  have hsoft (hs : a.soft = true) : c₁ = c ∧ ts = [] ∨ Begins source c (ts ++ us) c' ∧
      (a.solid f = true → SolidAt source c.next.offset) := by
    rcases ha.soft hs with hidle | ⟨hbeg, hsolid⟩
    · exact Or.inl hidle
    · exact Or.inr ⟨begins_append hbeg hb.forest, hsolid⟩
  have hfirm (hs : a.firm = true) : Begins source c (ts ++ us) c' ∧
      (a.solid f = true → SolidAt source c.next.offset) := by
    obtain ⟨hbeg, hsolid⟩ := ha.firm hs
    exact ⟨begins_append hbeg hb.forest, hsolid⟩
  have hsolid (h : (Rule.both a b).solid f = true) : a.solid f = true ∧ (a.firm = true ∨ b.solid f = true) := by
    simpa [Rule.solid] using h
  refine ⟨hb.on, ha.le.trans hb.le, ha.forest.append hb.forest, fun h => ?_, fun h => ?_, fun h => ?_,
    fun h => ?_, fun h => ?_, fun h => ?_, fun h => ?_, fun h => ?_, fun h => ?_⟩
  · simp only [Rule.firm, Bool.or_eq_true, Bool.and_eq_true] at h
    by_cases haf : a.firm = true
    · exact ⟨(hfirm haf).1, fun hs => (hfirm haf).2 (hsolid hs).1⟩
    · obtain ⟨has, hbf⟩ := h.resolve_left haf
      rcases hsoft has with ⟨rfl, rfl⟩ | ⟨hbeg, hs⟩
      · exact ⟨(hb.firm hbf).1, fun hs => (hb.firm hbf).2 ((hsolid hs).2.resolve_left haf)⟩
      · exact ⟨hbeg, fun h => hs (hsolid h).1⟩
  · simp only [Rule.soft, Bool.or_eq_true, Bool.and_eq_true] at h
    by_cases haf : a.firm = true
    · exact Or.inr ⟨(hfirm haf).1, fun hs => (hfirm haf).2 (hsolid hs).1⟩
    · obtain ⟨has, hbs⟩ := h.resolve_left haf
      rcases hsoft has with ⟨rfl, rfl⟩ | ⟨hbeg, hs⟩
      · rcases hb.soft hbs with ⟨rfl, rfl⟩ | ⟨hbeg, hs⟩
        · exact Or.inl ⟨rfl, rfl⟩
        · exact Or.inr ⟨hbeg, fun h => hs ((hsolid h).2.resolve_left haf)⟩
      · exact Or.inr ⟨hbeg, fun h => hs (hsolid h).1⟩
  · simp only [Rule.barren, Bool.and_eq_true] at h
    rw [ha.barren h.1, hb.barren h.2]
    rfl
  · simp only [Rule.decorates, Bool.and_eq_true] at h
    intro t ht
    rcases List.mem_append.mp ht with ht | ht
    · exact ha.decorates h.1 t ht
    · exact hb.decorates h.2 t ht
  · simp only [Rule.orderly, Bool.or_eq_true, Bool.and_eq_true] at h
    rcases h with ⟨hoa, hob⟩ | ⟨hda, hlb⟩
    · exact (ha.orderly hoa).append (hb.orderly hob)
    · exact Orderly.decorators_append (ha.decorates hda) (hb.led hlb).1 (hb.led hlb).2
  · simp only [Rule.led, Bool.and_eq_true] at h
    obtain ⟨hord, m, ms, rfl, hm⟩ := ha.led h.1
    exact ⟨hord.append (hb.orderly h.2), m, ms ++ us, rfl, hm⟩
  · simp only [Rule.capped, Bool.or_eq_true] at h
    rcases h with h | h
    · obtain ⟨q, hle, hlt, hq⟩ := ha.capped h
      exact ⟨q, hle, hlt.trans_le hb.le, hq⟩
    · obtain ⟨q, hle, hlt, hq⟩ := hb.capped h
      exact ⟨q, ha.le.trans hle, hlt, hq⟩
  · simp only [Rule.closed, Bool.and_eq_true] at h
    intro t ht
    rcases List.mem_append.mp ht with ht | ht
    · -- the parts of the first rule end before the lexeme that the second one takes
      obtain ⟨q, hle, hlt, hq⟩ := hb.capped h.1
      exact Or.inr ⟨q, (ha.forest.mem ht).2.2.trans hle, hlt, hq⟩
    · exact hb.closed h.2 t ht
  · simp only [Rule.endsInBody, Bool.or_eq_true, Bool.and_eq_true] at h
    rcases h with h | ⟨hend, hbar⟩
    · obtain ⟨front, last, rfl, hlast⟩ := hb.endsInBody h
      exact ⟨ts ++ front, last, by simp, hlast⟩
    · obtain ⟨front, last, rfl, hlast⟩ := ha.endsInBody hend
      exact ⟨front, last, by simp [hb.barren hbar], hlast⟩

/-- What is claimed of a choice is claimed of both alternatives, and so holds of the one that was taken. -/
theorem either {a b x : Rule P} (hx : x = a ∨ x = b) (h : Reading source f x c ts c') :
    Reading source f (.either a b) c ts c' := by
  have hof (q : Rule P → Bool) (hq : (q a && q b) = true) : q x = true := by
    rw [Bool.and_eq_true] at hq
    rcases hx with rfl | rfl
    · exact hq.1
    · exact hq.2
  have hsolid (hs : (Rule.either a b).solid f = true) : x.solid f = true := hof _ hs
  refine ⟨h.on, h.le, h.forest, fun hs => ?_, fun hs => ?_, fun hs => h.barren (hof _ hs),
    by simp [Rule.decorates], fun hs => h.orderly (hof _ (by simpa [Rule.orderly] using hs)),
    fun hs => h.led (hof _ (by simpa [Rule.led] using hs)), fun hs => h.capped (hof _ hs),
    fun hs => h.closed (hof _ hs), fun hs => h.endsInBody (hof _ hs)⟩
  · obtain ⟨hbeg, hb⟩ := h.firm (hof _ (by simpa [Rule.firm] using hs))
    exact ⟨hbeg, fun hs => hb (hsolid hs)⟩
  · rcases h.soft (hof _ (by simpa [Rule.soft] using hs)) with hidle | ⟨hbeg, hb⟩
    · exact Or.inl hidle
    · exact Or.inr ⟨hbeg, fun hs => hb (hsolid hs)⟩

/-- One more item in front of a repetition. The item took something, so the repetition begins with it. -/
theorem manyCons {a : Rule P} (ha : Reading source f a c ts c₁) (hlt : c.last.offset < c₁.last.offset)
    (hb : Reading source f (.many a) c₁ us c') : Reading source f (.many a) c (ts ++ us) c' where
  on := hb.on
  le := ha.le.trans hb.le
  forest := ha.forest.append hb.forest
  firm hs := by simp [Rule.firm] at hs
  soft hs := by
    rcases ha.soft hs with ⟨rfl, -⟩ | ⟨hbeg, hsolid⟩
    · exact absurd hlt (Nat.lt_irrefl _)
    · exact Or.inr ⟨begins_append hbeg hb.forest, hsolid⟩
  barren hs := by rw [ha.barren hs, hb.barren hs]; rfl
  decorates hs t ht := by
    rcases List.mem_append.mp ht with ht | ht
    · exact ha.decorates hs t ht
    · exact hb.decorates hs t ht
  orderly hs := (ha.orderly (by simpa [Rule.orderly] using hs)).append (hb.orderly hs)
  led hs := by simp [Rule.led] at hs
  capped hs := by simp [Rule.capped] at hs
  closed hs := by simp [Rule.closed] at hs
  endsInBody hs := by simp [Rule.endsInBody] at hs

/-- A mark of one byte reads that byte. -/
theorem bareMark {a : Rule P} {grammar : P → Rule P} (hc : c.On source) (ha : a.isBareMark = true)
    (h : a.Accepts grammar c ts c') :
    c'.last.offset = c.next.offset + 1 ∧
      ∃ x rest, dropBytes? source c.next.offset = some (x :: rest) ∧ x ≠ ' ' ∧ x ≠ '\t' := by
  unfold Rule.isBareMark at ha
  split at ha
  · next x stops =>
    simp only [Bool.and_eq_true, decide_eq_true_eq, bne_iff_ne] at ha
    cases h with
    | token hread =>
      obtain ⟨y, rest, hy, rfl⟩ := Cursor.read?_eq_some hread
      obtain ⟨rfl, hsplit⟩ := Reader.exactly_eq_some (Option.filter_eq_some_iff.mp hy).1
      refine ⟨by simp [Cursor.after, ha.1.1], x, rest, ?_, ha.1.2, ha.2⟩
      rw [hc.next.1, hsplit]
      rfl
  · simp at ha

/-- The part made from what a rule took lies where the rule began and ended. -/
theorem fits {a : Rule P} {grammar : P → Rule P} {part : Part} (hc : c.On source) (hfirm : a.firm = true)
    (hsuits : a.suits f part = true) (h : Reading source f a c ts c') (haccepts : a.Accepts grammar c ts c') :
    Fits source part ⟨c.next.offset, c'.last.offset⟩ ts := by
  obtain ⟨hbeg, hsolid⟩ := h.firm hfirm
  refine ⟨hbeg.1, hc.next_isSome, h.on.isSome, fun hp => hsolid ?_, ?_, ?_, ?_, ?_⟩
  · cases part <;> simp_all [Rule.suits]
  · rintro rfl
    exact bareMark hc hsuits haccepts
  · rintro rfl
    simp only [Rule.suits, Bool.and_eq_true] at hsuits
    exact h.orderly hsuits.1.2
  · rintro rfl
    simp only [Rule.suits, Bool.and_eq_true] at hsuits
    exact h.closed hsuits.2
  · rintro kind rfl
    simp only [Rule.suits, Bool.and_eq_true] at hsuits
    exact h.endsInBody hsuits.2

theorem node {a : Rule P} {grammar : P → Rule P} {part : Part} (hc : c.On source) (hfirm : a.firm = true)
    (hsuits : a.suits f part = true) (h : Reading source f a c ts c') (haccepts : a.Accepts grammar c ts c') :
    Reading source f (.node part a) c [.node part ⟨c.next.offset, c'.last.offset⟩ ts] c' := by
  obtain ⟨hbeg, hsolid⟩ := h.firm hfirm
  have hsound : (Tree.node part ⟨c.next.offset, c'.last.offset⟩ ts).Sound source :=
    ⟨h.fits hc hfirm hsuits haccepts, hbeg.2⟩
  have hbegins : Begins source c [.node part ⟨c.next.offset, c'.last.offset⟩ ts] c' :=
    ⟨hbeg.1, Nat.le_refl _, hsound, Nat.le_refl _⟩
  refine ⟨h.on, h.le, hbegins.2.weaken hc.next.2 (Nat.le_refl _), fun _ => ⟨hbegins, hsolid⟩,
    fun _ => Or.inr ⟨hbegins, hsolid⟩, by simp [Rule.barren], fun hs => ?_, fun hs => ?_, fun hs => ?_,
    fun hs => ?_, fun hs => ?_, fun hs => ?_⟩
  · cases part <;> simp_all [Rule.decorates, Tree.part]
  · refine ⟨fun hd => ?_, trivial⟩
    simp [Rule.orderly] at hs
    exact absurd hd hs
  · cases part <;> simp_all [Rule.led, Tree.isMember, Tree.part, Orderly]
  · exact h.capped hs
  · -- the only part that may end a closed rule is a bare mark, which has no parts of its own
    have hbare : part = .member .other ∧ ts = [] := by
      unfold Rule.closed at hs
      split at hs
      all_goals simp_all
      exact h.barren rfl
    intro t ht
    rw [List.mem_singleton.mp ht, hbare.1, hbare.2]
    exact Or.inl ⟨rfl, rfl⟩
  · cases part <;> simp_all [Rule.endsInBody]
    exact ⟨[], _, rfl, rfl⟩

end Reading

/-- Reading does what the rules are claimed to do, if the rules bear out their profile. -/
theorem Rule.Accepts.reading {f : Profile P} {grammar : P → Rule P} (hg : ∀ p, f.holds grammar p = true)
    {rule : Rule P} {c c' : Cursor} {ts : List Tree} (h : rule.Accepts grammar c ts c') (hfit : rule.fit f = true)
    (hc : c.On source) : Reading source f rule c ts c' := by
  induction h with
  | token hread => exact .token hc hread
  | @phrase p c c' ts h ih =>
    have hp : (grammar p).fit f = true := by
      have := hg p
      simp only [Profile.holds, Bool.and_eq_true] at this
      exact this.1.1.1.2
    exact .phrase hc (hg p) (ih hp hc)
  | nothing | manyNil | ahead | absent => exact .idle hc rfl rfl rfl rfl
  | both ha hb iha ihb =>
    simp only [Rule.fit, Bool.and_eq_true] at hfit
    have hra := iha hfit.1 hc
    exact .both hra (ihb hfit.2 hra.on)
  | left h ih =>
    simp only [Rule.fit, Bool.and_eq_true] at hfit
    exact .either (Or.inl rfl) (ih hfit.1 hc)
  | right h ih =>
    simp only [Rule.fit, Bool.and_eq_true] at hfit
    exact .either (Or.inr rfl) (ih hfit.2 hc)
  | manyCons ha hlt hb iha ihb =>
    have hra := iha hfit hc
    exact .manyCons hra hlt (ihb hfit hra.on)
  | node h ih =>
    simp only [Rule.fit, Bool.and_eq_true] at hfit
    exact .node hc hfit.1.2 hfit.2 (ih hfit.1.1 hc) h

/-- The trees of a file are well nested in its text. -/
theorem readFile_forest {d : Dialect} {ts : List Tree} {c' : Cursor} {r : Reach}
    (h : readFile d source = .accepted ts c' r) : Forest source 0 (byteLength source) ts := by
  have hr := (Rule.accepts_of_read _ h).reading (profile_holds d) program_fit (Cursor.On.start source)
  exact hr.forest.weaken (Nat.zero_le _) hr.on.last_le

end SignatureDocs.Grammar
