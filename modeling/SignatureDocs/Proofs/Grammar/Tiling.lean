import SignatureDocs.Proofs.Grammar.Nesting

/-!
The parts of a body leave nothing out. Between two of them, and between the opening brace and the first one, the
grammar finds nothing but blanks and comments. This is again told from the rules before anything is read by them.
-/
namespace SignatureDocs.Grammar

open SignatureDocs.Text

variable {source : List Char}

/-- From the offset `a` on, the grammar skips blanks and comments up to the offset `b`. -/
def GapTo (source : List Char) (a b : Nat) : Prop :=
  ∃ text, dropBytes? source a = some text ∧ (Located.next ⟨text, a⟩).offset = b

/-- Separators, decorators and members, the parts that a body is made of. -/
def Part.isTile : Part → Bool
  | .separator | .decorator | .member _ => true
  | _ => false

/-- Parts one after another from the offset `a` to the offset `b`, with gaps before them and nothing else. -/
def Tiled (source : List Char) : Nat → List Tree → Nat → Prop
  | a, [], b => a = b
  | a, t :: ts, b => t.part.isTile = true ∧ GapTo source a t.span.start ∧ Tiled source t.span.stop ts b

theorem Tiled.append {a b c : Nat} {ts us : List Tree} (ht : Tiled source a ts b) (hu : Tiled source b us c) :
    Tiled source a (ts ++ us) c := by
  induction ts generalizing a with
  | nil =>
    obtain rfl : a = b := ht
    exact hu
  | cons t ts ih => exact ⟨ht.1, ht.2.1, ih ht.2.2⟩

/-- The parts of a body: what opens it, and the others from there on. -/
def Laid (source : List Char) (ts : List Tree) : Prop :=
  ∃ opener rest b, ts = opener :: rest ∧ (opener.part = .separator ∨ opener.part = .member .other) ∧
    Tiled source opener.span.stop rest b

variable {P : Type}

namespace Rule

/-- Every lexeme that the rule takes is in one of the parts that it makes, which are all tiles. `k` are the phrases
of which this is claimed. -/
def covers (k : P → Bool) : Rule P → Bool
  | token t => t.isIdle
  | phrase p => k p
  | nothing | ahead _ | absent _ => true
  | both a b | either a b => a.covers k && b.covers k
  | many a => a.covers k
  | node part _ => part.isTile

/-- The lexemes that are in none of the tiles come behind the last of them. -/
def trails (k : P → Bool) : Rule P → Bool
  | token _ => true
  | both a b => a.covers k && b.trails k
  | either a b => a.trails k && b.trails k
  | rule => rule.covers k

/-- The rule makes one part, which opens a body. -/
def opens : Rule P → Bool
  | node part _ => part = .separator || part = .member .other
  | either a b => a.opens && b.opens
  | _ => false

/-- The rule takes a body. `q` are the phrases of which this is claimed. -/
def lays (k q : P → Bool) : Rule P → Bool
  | both a b => a.opens && b.trails k
  | phrase p => q p
  | _ => false

/-- Every body that the rule makes is laid out in tiles. -/
def bodied (k q : P → Bool) : Rule P → Bool
  | both a b | either a b => a.bodied k q && b.bodied k q
  | many a => a.bodied k q
  | node part a => a.bodied k q && (part != .body || a.lays k q)
  | token _ | phrase _ | nothing | ahead _ | absent _ => true

end Rule

/-- What reading from `c` to `c'` by a rule did, given what is claimed of the phrases. -/
structure Laying (source : List Char) (k q : P → Bool) (rule : Rule P) (c : Cursor) (ts : List Tree)
    (c' : Cursor) : Prop where
  on : c'.On source
  covers : rule.covers k = true → Tiled source c.last.offset ts c'.last.offset
  trails : rule.trails k = true → ∃ b, Tiled source c.last.offset ts b
  opens : rule.opens = true → ∃ t, ts = [t] ∧ (t.part = .separator ∨ t.part = .member .other) ∧
    t.span.stop = c'.last.offset
  lays : rule.lays k q = true → Laid source ts
  bodies : ∀ t ∈ Tree.preorderAll ts, t.part = .body → Laid source t.children

theorem preorderAll_append (ts us : List Tree) :
    Tree.preorderAll (ts ++ us) = Tree.preorderAll ts ++ Tree.preorderAll us := by
  induction ts with
  | nil => rfl
  | cons t ts ih => rw [List.cons_append, Tree.preorderAll, Tree.preorderAll, ih, List.append_assoc]

namespace Laying

variable {k q : P → Bool} {c c₁ c' : Cursor} {ts us : List Tree}

/-- A rule that took nothing. -/
theorem idle {rule : Rule P} (hc : c.On source) (hopens : rule.opens = false) (hlays : rule.lays k q = false) :
    Laying source k q rule c [] c where
  on := hc
  covers _ := rfl
  trails _ := ⟨_, rfl⟩
  opens h := by simp [hopens] at h
  lays h := by simp [hlays] at h
  bodies := by simp [Tree.preorderAll]

theorem token {t : Token} (hc : c.On source) (h : t.read? c = some c') :
    Laying source k q (.token t) c [] c' where
  on := (t.read?_on hc h).1
  covers hidle := by
    rw [Token.read?_idle hidle h]
    rfl
  trails _ := ⟨_, rfl⟩
  opens h := by simp [Rule.opens] at h
  lays h := by simp [Rule.lays] at h
  bodies := by simp [Tree.preorderAll]

/-- A phrase is read by its rule, which bears out what is claimed of the phrase. -/
theorem phrase {grammar : P → Rule P} {p : P} (hk : k p = true → (grammar p).covers k = true)
    (hq : q p = true → (grammar p).lays k q = true) (h : Laying source k q (grammar p) c ts c') :
    Laying source k q (.phrase p) c ts c' where
  on := h.on
  covers hs := h.covers (hk hs)
  trails hs := ⟨_, h.covers (hk hs)⟩
  opens h := by simp [Rule.opens] at h
  lays hs := h.lays (hq hs)
  bodies := h.bodies

theorem both {a b : Rule P} (ha : Laying source k q a c ts c₁) (hb : Laying source k q b c₁ us c') :
    Laying source k q (.both a b) c (ts ++ us) c' where
  on := hb.on
  covers h := by
    simp only [Rule.covers, Bool.and_eq_true] at h
    exact (ha.covers h.1).append (hb.covers h.2)
  trails h := by
    simp only [Rule.trails, Bool.and_eq_true] at h
    obtain ⟨e, he⟩ := hb.trails h.2
    exact ⟨e, (ha.covers h.1).append he⟩
  opens h := by simp [Rule.opens] at h
  lays h := by
    simp only [Rule.lays, Bool.and_eq_true] at h
    obtain ⟨opener, rfl, hpart, hstop⟩ := ha.opens h.1
    obtain ⟨e, he⟩ := hb.trails h.2
    exact ⟨opener, us, e, rfl, hpart, hstop ▸ he⟩
  bodies t ht := by
    rw [preorderAll_append, List.mem_append] at ht
    exact ht.elim (ha.bodies t) (hb.bodies t)

/-- What is claimed of a choice is claimed of both alternatives, and so holds of the one that was taken. -/
theorem either {a b x : Rule P} (hx : x = a ∨ x = b) (h : Laying source k q x c ts c') :
    Laying source k q (.either a b) c ts c' := by
  have hof (q : Rule P → Bool) (hq : (q a && q b) = true) : q x = true := by
    rw [Bool.and_eq_true] at hq
    rcases hx with rfl | rfl
    · exact hq.1
    · exact hq.2
  exact ⟨h.on, fun hs => h.covers (hof _ hs), fun hs => h.trails (hof _ hs), fun hs => h.opens (hof _ hs),
    by simp [Rule.lays], h.bodies⟩

theorem manyCons {a : Rule P} (ha : Laying source k q a c ts c₁) (hb : Laying source k q (.many a) c₁ us c') :
    Laying source k q (.many a) c (ts ++ us) c' where
  on := hb.on
  covers h := (ha.covers h).append (hb.covers h)
  trails h := ⟨_, (ha.covers h).append (hb.covers h)⟩
  opens h := by simp [Rule.opens] at h
  lays h := by simp [Rule.lays] at h
  bodies t ht := by
    rw [preorderAll_append, List.mem_append] at ht
    exact ht.elim (ha.bodies t) (hb.bodies t)

/-- A part starts at the lexeme that the cursor stands before, so only a gap is in front of it. -/
theorem node {a : Rule P} {part : Part} (hc : c.On source) (hbody : part = .body → a.lays k q = true)
    (h : Laying source k q a c ts c') :
    Laying source k q (.node part a) c [.node part ⟨c.next.offset, c'.last.offset⟩ ts] c' := by
  have hgap : GapTo source c.last.offset c.next.offset := by
    refine ⟨c.last.text, hc.last, ?_⟩
    rw [hc.eq_after]
    rfl
  have htiled (htile : part.isTile = true) : Tiled source c.last.offset
      [.node part ⟨c.next.offset, c'.last.offset⟩ ts] c'.last.offset := ⟨htile, hgap, rfl⟩
  refine ⟨h.on, htiled, fun hs => ⟨_, htiled hs⟩,
    fun hs => ⟨_, rfl, by simpa [Rule.opens, Tree.part] using hs, rfl⟩, by simp [Rule.lays], fun t ht hpart => ?_⟩
  simp only [Tree.preorderAll, Tree.preorder, List.append_nil, List.mem_cons] at ht
  rcases ht with rfl | ht
  · exact h.lays (hbody hpart)
  · exact h.bodies t ht hpart

end Laying

/-- Reading lays out bodies as the rules are claimed to. -/
theorem Rule.Accepts.laying {k q : P → Bool} {grammar : P → Rule P}
    (hk : ∀ p, k p = true → (grammar p).covers k = true) (hq : ∀ p, q p = true → (grammar p).lays k q = true)
    (hg : ∀ p, (grammar p).bodied k q = true) {rule : Rule P} {c c' : Cursor} {ts : List Tree}
    (h : rule.Accepts grammar c ts c') (hbodied : rule.bodied k q = true) (hc : c.On source) :
    Laying source k q rule c ts c' := by
  induction h with
  | token hread => exact .token hc hread
  | @phrase p c c' ts h ih => exact .phrase (hk p) (hq p) (ih (hg p) hc)
  | nothing | manyNil | ahead | absent => exact .idle hc rfl rfl
  | both ha hb iha ihb =>
    simp only [Rule.bodied, Bool.and_eq_true] at hbodied
    have hla := iha hbodied.1 hc
    exact .both hla (ihb hbodied.2 hla.on)
  | left h ih =>
    simp only [Rule.bodied, Bool.and_eq_true] at hbodied
    exact .either (Or.inl rfl) (ih hbodied.1 hc)
  | right h ih =>
    simp only [Rule.bodied, Bool.and_eq_true] at hbodied
    exact .either (Or.inr rfl) (ih hbodied.2 hc)
  | manyCons ha hlt hb iha ihb =>
    have hla := iha hbodied hc
    exact .manyCons hla (ihb hbodied hla.on)
  | node h ih =>
    simp only [Rule.bodied, Bool.and_eq_true, Bool.or_eq_true, bne_iff_ne] at hbodied
    exact .node hc (fun hpart => hbodied.2.resolve_left (not_not_intro hpart)) (ih hbodied.1 hc)

/-- The phrases of declaration files that are made of tiles. -/
def isTiles (p : Phrase) : Bool := p == .classItem || p == .typeMember

/-- The phrases of declaration files that are bodies. -/
def isBody (p : Phrase) : Bool := p == .typeBody

theorem rules_tiles (d : Dialect) {p : Phrase} (h : isTiles p = true) : (rules d p).covers isTiles = true := by
  obtain rfl | rfl : p = .classItem ∨ p = .typeMember := by simpa [isTiles] using h
  all_goals cases d <;> decide +kernel

theorem rules_body (d : Dialect) {p : Phrase} (h : isBody p = true) : (rules d p).lays isTiles isBody = true := by
  obtain rfl : p = .typeBody := by simpa [isBody] using h
  cases d <;> decide +kernel

theorem rules_bodied (d : Dialect) (p : Phrase) : (rules d p).bodied isTiles isBody = true := by
  cases d <;> cases p with
  | typeExpr line | typeOperand line | typeElement line | callSignature line | block line =>
    cases line <;> decide +kernel
  | expression s | operand s | unary s | atom s | suffix s | expressions s =>
    obtain ⟨line, typed, head⟩ := s
    cases line <;> cases typed <;> cases head <;> decide +kernel
  | _ => decide +kernel

/-- Every body in the trees of a file is laid out in tiles. -/
theorem readFile_bodies {d : Dialect} {ts : List Tree} {c' : Cursor} {r : Reach}
    (h : readFile d source = .accepted ts c' r) :
    ∀ t ∈ Tree.preorderAll ts, t.part = .body → Laid source t.children := by
  have hprogram : program.bodied isTiles isBody = true := by decide
  exact ((Rule.accepts_of_read _ h).laying (fun p => rules_tiles d) (fun p => rules_body d) (rules_bodied d) hprogram
    (Cursor.On.start source)).bodies

end SignatureDocs.Grammar
