import SignatureDocs.Proofs.Grammar.Budget

/-!
Reading without the text. Where only the classes of the next lexemes are known, most rules already tell what they
do: a keyword is not there, a word is taken. `Rule.scan` follows a rule through such signs, and what it finds out
holds of every text that shows them.
-/
namespace SignatureDocs.Grammar

open SignatureDocs.Text

variable {P : Type}

/-- The rule accepts at a cursor. -/
def Takes (grammar : P → Rule P) (rule : Rule P) (c : Cursor) (ts : List Tree) (c' : Cursor) : Prop :=
  ∃ n r, Rule.read grammar n rule c = .accepted ts c' r

/-- The rule refuses at a cursor. -/
def Refuses (grammar : P → Rule P) (rule : Rule P) (c : Cursor) : Prop :=
  ∃ n r, Rule.read grammar n rule c = .refused r

section Calculus

variable {grammar : P → Rule P} {a b : Rule P} {c c₁ c' : Cursor} {ts us : List Tree}

theorem Takes.lift (h : Takes grammar a c ts c') :
    ∃ n r, ∀ m, n ≤ m → Rule.read grammar m a c = .accepted ts c' r := by
  obtain ⟨n, r, hread⟩ := h
  refine ⟨n, r, fun m hle => ?_⟩
  rw [Rule.read_mono hle (by simp [hread]), hread]

theorem Refuses.lift (h : Refuses grammar a c) :
    ∃ n r, ∀ m, n ≤ m → Rule.read grammar m a c = .refused r := by
  obtain ⟨n, r, hread⟩ := h
  refine ⟨n, r, fun m hle => ?_⟩
  rw [Rule.read_mono hle (by simp [hread]), hread]

theorem Takes.token {t : Token} (h : t.read? c = some c') : Takes grammar (.token t) c [] c' :=
  ⟨1, .zero, by simp [Rule.read, h]⟩

theorem Refuses.token {t : Token} (h : t.read? c = none) : Refuses grammar (.token t) c :=
  ⟨1, .ofCursor c, by simp [Rule.read, h]⟩

theorem Takes.nothing (grammar : P → Rule P) (c : Cursor) : Takes grammar .nothing c [] c :=
  ⟨1, .zero, rfl⟩

theorem Takes.phrase {p : P} (h : Takes grammar (grammar p) c ts c') :
    Takes grammar (.phrase p) c ts c' := by
  obtain ⟨n, r, hread⟩ := h
  exact ⟨n + 1, r, hread⟩

theorem Refuses.phrase {p : P} (h : Refuses grammar (grammar p) c) : Refuses grammar (.phrase p) c := by
  obtain ⟨n, r, hread⟩ := h
  exact ⟨n + 1, r, hread⟩

theorem Takes.both (ha : Takes grammar a c ts c₁) (hb : Takes grammar b c₁ us c') :
    Takes grammar (.both a b) c (ts ++ us) c' := by
  obtain ⟨n, r, ha⟩ := ha.lift
  obtain ⟨m, q, hb⟩ := hb.lift
  refine ⟨max n m + 1, r.max q, ?_⟩
  rw [Rule.read, ha _ (le_max_left n m)]
  simp only [hb _ (le_max_right n m), Outcome.after, Outcome.reaching]

theorem Refuses.both_left (ha : Refuses grammar a c) (b : Rule P) : Refuses grammar (.both a b) c := by
  obtain ⟨n, r, ha⟩ := ha
  exact ⟨n + 1, r, by rw [Rule.read, ha]⟩

theorem Refuses.both_right (ha : Takes grammar a c ts c₁) (hb : Refuses grammar b c₁) :
    Refuses grammar (.both a b) c := by
  obtain ⟨n, r, ha⟩ := ha.lift
  obtain ⟨m, q, hb⟩ := hb.lift
  refine ⟨max n m + 1, r.max q, ?_⟩
  rw [Rule.read, ha _ (le_max_left n m)]
  simp only [hb _ (le_max_right n m), Outcome.after, Outcome.reaching]

theorem Takes.either_left (ha : Takes grammar a c ts c') (b : Rule P) :
    Takes grammar (.either a b) c ts c' := by
  obtain ⟨n, r, ha⟩ := ha
  exact ⟨n + 1, r, by rw [Rule.read, ha]⟩

theorem Takes.either_right (ha : Refuses grammar a c) (hb : Takes grammar b c ts c') :
    Takes grammar (.either a b) c ts c' := by
  obtain ⟨n, r, ha⟩ := ha.lift
  obtain ⟨m, q, hb⟩ := hb.lift
  refine ⟨max n m + 1, r.max q, ?_⟩
  rw [Rule.read, ha _ (le_max_left n m)]
  simp only [hb _ (le_max_right n m), Outcome.reaching]

theorem Refuses.either (ha : Refuses grammar a c) (hb : Refuses grammar b c) :
    Refuses grammar (.either a b) c := by
  obtain ⟨n, r, ha⟩ := ha.lift
  obtain ⟨m, q, hb⟩ := hb.lift
  refine ⟨max n m + 1, r.max q, ?_⟩
  rw [Rule.read, ha _ (le_max_left n m)]
  simp only [hb _ (le_max_right n m), Outcome.reaching]

theorem Takes.many_refuses (ha : Refuses grammar a c) : Takes grammar (.many a) c [] c := by
  obtain ⟨n, r, ha⟩ := ha
  exact ⟨n + 1, r, by rw [Rule.read, ha]⟩

/-- An item that takes nothing ends a repetition. -/
theorem Takes.many_idle (ha : Takes grammar a c ts c) : Takes grammar (.many a) c [] c := by
  obtain ⟨n, r, ha⟩ := ha
  refine ⟨n + 1, r, ?_⟩
  rw [Rule.read, ha]
  simp

theorem Takes.many_cons (ha : Takes grammar a c ts c₁) (hlt : c.last.offset < c₁.last.offset)
    (hb : Takes grammar (.many a) c₁ us c') : Takes grammar (.many a) c (ts ++ us) c' := by
  obtain ⟨n, r, ha⟩ := ha.lift
  obtain ⟨m, q, hb⟩ := hb.lift
  refine ⟨max n m + 1, r.max q, ?_⟩
  rw [Rule.read, ha _ (le_max_left n m)]
  simp only [if_pos hlt, hb _ (le_max_right n m), Outcome.after, Outcome.reaching]

theorem Takes.ahead (ha : Takes grammar a c ts c') : Takes grammar (.ahead a) c [] c := by
  obtain ⟨n, r, ha⟩ := ha
  exact ⟨n + 1, .zero, by rw [Rule.read, ha]⟩

theorem Refuses.ahead (ha : Refuses grammar a c) : Refuses grammar (.ahead a) c := by
  obtain ⟨n, r, ha⟩ := ha
  exact ⟨n + 1, r, by rw [Rule.read, ha]⟩

theorem Refuses.absent (ha : Takes grammar a c ts c') : Refuses grammar (.absent a) c := by
  obtain ⟨n, r, ha⟩ := ha
  exact ⟨n + 1, .ofCursor c, by rw [Rule.read, ha]⟩

theorem Takes.absent (ha : Refuses grammar a c) : Takes grammar (.absent a) c [] c := by
  obtain ⟨n, r, ha⟩ := ha
  exact ⟨n + 1, .zero, by rw [Rule.read, ha]⟩

theorem Takes.node (ha : Takes grammar a c ts c') (part : Part) :
    Takes grammar (.node part a) c [.node part ⟨c.next.offset, c'.last.offset⟩ ts] c' := by
  obtain ⟨n, r, ha⟩ := ha
  exact ⟨n + 1, r, by rw [Rule.read, ha]⟩

theorem Refuses.node (ha : Refuses grammar a c) (part : Part) : Refuses grammar (.node part a) c := by
  obtain ⟨n, r, ha⟩ := ha
  exact ⟨n + 1, r, by rw [Rule.read, ha]⟩

/-- A repetition refuses nowhere. -/
theorem Rule.read_many_ne_refused (grammar : P → Rule P) (n : Nat) (a : Rule P) (c : Cursor) (r : Reach) :
    Rule.read grammar n (.many a) c ≠ .refused r := by
  induction n generalizing c r with
  | zero => simp [Rule.read]
  | succ n ih =>
    intro h
    rw [Rule.read] at h
    split at h
    · next ts c' q _ =>
      split at h
      · cases hrest : Rule.read grammar n (.many a) c' with
        | refused q' => exact ih c' q' hrest
        | _ => simp [hrest, Outcome.after, Outcome.reaching] at h
      · simp at h
    · simp at h
    · simp at h

end Calculus

/-- What a rule does with steps enough is what reading a file does. -/
theorem readFile_of_takes {d : Dialect} {source : List Char} {ts : List Tree} {c' : Cursor}
    (h : Takes (rules d) program (Cursor.start source) ts c') :
    ∃ r, readFile d source = .accepted ts c' r := by
  obtain ⟨n, r, hread⟩ := h.lift
  refine ⟨r, ?_⟩
  have hmono := Rule.read_mono (le_max_right n (budget source)) (readFile_ne_exhausted d source)
  rw [hread _ (le_max_left _ _)] at hmono
  exact hmono.symm

theorem readFile_of_refuses {d : Dialect} {source : List Char}
    (h : Refuses (rules d) program (Cursor.start source)) : ∃ r, readFile d source = .refused r := by
  obtain ⟨n, r, hread⟩ := h.lift
  refine ⟨r, ?_⟩
  have hmono := Rule.read_mono (le_max_right n (budget source)) (readFile_ne_exhausted d source)
  rw [hread _ (le_max_left _ _)] at hmono
  exact hmono.symm

/-- What is known of the lexeme at a cursor. -/
inductive Lexeme where
  /-- A word with a capital letter in front. -/
  | name
  | word (text : List Char)
  | mark (c : Char)
  /-- The end of the text. -/
  | finish
  | unknown
deriving DecidableEq

namespace Lexeme

/-- The characters that the lexeme can start with, if any are ruled out. -/
def firsts : Lexeme → Option (List Char)
  | name => some "ABCDEFGHIJKLMNOPQRSTUVWXYZ".toList
  | word text => some (text.take 1)
  | mark c => some [c]
  | finish => some []
  | unknown => none

end Lexeme

/-- What a token does at a cursor. -/
inductive Verdict where
  | takes
  | refuses
  /-- Accepts and takes nothing. -/
  | idles

/-- What is known at a cursor: the lexeme that follows or the phrase that starts with it, whether a line ends before
it, and whether a blank stands behind it. -/
structure Sign (P : Type) where
  lexeme : Lexeme
  line : Bool
  spaced : Bool
  phrase : Option P

namespace Lexeme

/-- What a token does that can start as the lexeme does. -/
def verdict? (spaced : Bool) : Lexeme → Token → Option Verdict
  | name, .word except => if except.all fun w => !w.head?.any Char.isUpper then some .takes else none
  | word w, .keyword text => some (if text = w then .takes else .refuses)
  | word w, .word except => some (if except.contains w then .refuses else .takes)
  | mark c, .mark [x] [] => if x = c then some .takes else none
  | mark _, .mark (_ :: y :: _) _ => if spaced && !isSourceBlank y then some .refuses else none
  | _, _ => none

end Lexeme

namespace Sign

/-- What a token does where a sign is shown, as far as the sign tells. -/
def verdict? (s : Sign P) (t : Token) : Option Verdict :=
  match t with
  | .lineEnd _ | .closing _ => some (if s.line then .idles else .refuses)
  | .sameLine _ => some (if s.line then .refuses else .idles)
  | .finish =>
    match s.lexeme with
    | .finish => some .idles
    | .unknown => none
    | _ => some .refuses
  | t =>
    if !t.isLexeme then none
    else if s.lexeme.firsts.any (·.all fun c => !t.canStart c) then some .refuses
    else if s.phrase.isSome then none
    else s.lexeme.verdict? s.spaced t

end Sign

/-- Trees with the numbers of signs in place of offsets. -/
inductive Sketch where
  /-- From the lexeme of one number up to the end of the lexeme before the other. -/
  | node (part : Part) (start stop : Nat) (inside : List Sketch)
  /-- The trees of the phrase at the sign of a number. -/
  | given (number : Nat)

/-- What scanning by a rule finds out. -/
inductive Finding where
  | takes (trees : List Sketch) (stop : Nat)
  | refuses

namespace Finding

def after (trees : List Sketch) : Finding → Finding
  | takes ts k => takes (trees ++ ts) k
  | refuses => refuses

end Finding

namespace Rule

variable [DecidableEq P]

/-- Follows a rule from the sign of a number on; nothing is found out where the signs do not tell. -/
def scan (grammar : P → Rule P) (signs : List (Sign P)) : (budget : Nat) → Rule P → Nat → Option Finding
  | 0, _, _ => none
  | n + 1, rule, k =>
    match rule with
    | token t =>
      match signs[k]?.bind (·.verdict? t) with
      | some .takes => some (.takes [] (k + 1))
      | some .idles => some (.takes [] k)
      | some .refuses => some .refuses
      | none => none
    | phrase p =>
      if signs[k]?.bind (·.phrase) = some p then some (.takes [.given k] (k + 1))
      else scan grammar signs n (grammar p) k
    | nothing => some (.takes [] k)
    | both a b =>
      match scan grammar signs n a k with
      | some (.takes ts k') => (scan grammar signs n b k').map (Finding.after ts)
      | other => other
    | either a b =>
      match scan grammar signs n a k with
      | some .refuses => scan grammar signs n b k
      | other => other
    | many a =>
      match scan grammar signs n a k with
      | some (.takes ts k') =>
        if k < k' then (scan grammar signs n (many a) k').map (Finding.after ts)
        else some (.takes [] k)
      | some .refuses => some (.takes [] k)
      | none => none
    | ahead a =>
      match scan grammar signs n a k with
      | some (.takes _ _) => some (.takes [] k)
      | other => other
    | absent a =>
      match scan grammar signs n a k with
      | some (.takes _ _) => some .refuses
      | some .refuses => some (.takes [] k)
      | none => none
    | node part a =>
      match scan grammar signs n a k with
      | some (.takes ts k') => some (.takes [.node part k k' ts] k')
      | other => other

end Rule

/-- A token does what is said of it between two cursors. -/
def Verdict.Holds (t : Token) (c c' : Cursor) : Verdict → Prop
  | takes => t.read? c = some c' ∧ c.last.offset < c'.last.offset
  | refuses => t.read? c = none
  | idles => t.read? c = some c

/-- A sign is shown at a cursor: tokens do there what it tells, and a phrase that it tells of has the given trees. -/
structure Sign.Shows (grammar : P → Rule P) (s : Sign P) (c : Cursor) (ts : List Tree) (c' : Cursor) :
    Prop where
  verdict : ∀ t v, s.verdict? t = some v → v.Holds t c c'
  phrase : ∀ p, s.phrase = some p → Takes grammar (.phrase p) c ts c' ∧ c.last.offset < c'.last.offset

theorem Sign.Shows.takes_token {grammar : P → Rule P} {s : Sign P} {c c' : Cursor} {ts : List Tree}
    {t : Token} (h : s.Shows grammar c ts c') (hv : s.verdict? t = some .takes) :
    Takes grammar (.token t) c [] c' :=
  .token (h.verdict t .takes hv).1

/-- Signs that are shown one behind another from a cursor on. -/
inductive Row (grammar : P → Rule P) : Cursor → List (Sign P) → Type where
  | nil (c : Cursor) : Row grammar c []
  | cons {c c' : Cursor} {s : Sign P} {signs : List (Sign P)} (ts : List Tree)
      (shows : s.Shows grammar c ts c') (rest : Row grammar c' signs) : Row grammar c (s :: signs)

namespace Row

variable {grammar : P → Rule P}

/-- The cursor before the sign of a number. -/
def cursor {c : Cursor} {signs : List (Sign P)} : Row grammar c signs → Nat → Cursor
  | nil c, _ => c
  | @cons _ _ c _ _ _ _ _ _, 0 => c
  | cons _ _ rest, k + 1 => rest.cursor k

/-- The trees of the phrase at the sign of a number. -/
def given {c : Cursor} {signs : List (Sign P)} : Row grammar c signs → Nat → List Tree
  | nil _, _ => []
  | cons ts _ _, 0 => ts
  | cons _ _ rest, k + 1 => rest.given k

theorem cursor_zero {c : Cursor} {signs : List (Sign P)} (row : Row grammar c signs) :
    row.cursor 0 = c := by
  cases row <;> rfl

theorem shows_of_getElem? {c : Cursor} {signs : List (Sign P)} (row : Row grammar c signs) {k : Nat}
    {s : Sign P} (h : signs[k]? = some s) :
    s.Shows grammar (row.cursor k) (row.given k) (row.cursor (k + 1)) := by
  induction row generalizing k with
  | nil c => simp at h
  | @cons c c' x signs ts hshows rest ih =>
    cases k with
    | zero =>
      obtain rfl : x = s := by simpa using h
      have hnext : (Row.cons ts hshows rest).cursor 1 = c' := rest.cursor_zero
      rw [hnext]
      exact hshows
    | succ k => exact ih (by simpa using h)

mutual

/-- The trees that a sketch stands for on a row. -/
def trees {c : Cursor} {signs : List (Sign P)} (row : Row grammar c signs) : Sketch → List Tree
  | .node part i k inside =>
    [.node part ⟨(row.cursor i).next.offset, (row.cursor k).last.offset⟩ (row.treesAll inside)]
  | .given k => row.given k

def treesAll {c : Cursor} {signs : List (Sign P)} (row : Row grammar c signs) : List Sketch → List Tree
  | [] => []
  | s :: ss => row.trees s ++ row.treesAll ss

end

theorem treesAll_append {c : Cursor} {signs : List (Sign P)} (row : Row grammar c signs)
    (ss us : List Sketch) : row.treesAll (ss ++ us) = row.treesAll ss ++ row.treesAll us := by
  induction ss with
  | nil => rfl
  | cons s ss ih => rw [List.cons_append, treesAll, treesAll, ih, List.append_assoc]

/-- One sign is behind another or the same, and so are the cursors before them. -/
def Onward {c : Cursor} {signs : List (Sign P)} (row : Row grammar c signs) (k k' : Nat) : Prop :=
  k ≤ k' ∧ (k < k' → (row.cursor k).last.offset < (row.cursor k').last.offset)

/-- What was found out by scanning holds of reading on the row. -/
def Holds {c : Cursor} {signs : List (Sign P)} (row : Row grammar c signs) (rule : Rule P) (k : Nat) :
    Finding → Prop
  | .takes ss k' =>
    Takes grammar rule (row.cursor k) (row.treesAll ss) (row.cursor k') ∧ row.Onward k k'
  | .refuses => Refuses grammar rule (row.cursor k)

variable {c : Cursor} {signs : List (Sign P)}

theorem Onward.refl (row : Row grammar c signs) (k : Nat) : row.Onward k k :=
  ⟨Nat.le_refl k, fun hlt => absurd hlt (lt_irrefl k)⟩

theorem Onward.trans {row : Row grammar c signs} {k k₁ k' : Nat} (h : row.Onward k k₁)
    (h' : row.Onward k₁ k') : row.Onward k k' := by
  refine ⟨h.1.trans h'.1, fun hlt => ?_⟩
  rcases Nat.eq_or_lt_of_le h.1 with rfl | hk
  · exact h'.2 hlt
  · rcases Nat.eq_or_lt_of_le h'.1 with rfl | hk'
    · exact h.2 hk
    · exact (h.2 hk).trans (h'.2 hk')

variable [DecidableEq P]

/-- Reading does what scanning finds out. -/
theorem holds_of_scan (row : Row grammar c signs) (n : Nat) {rule : Rule P} {k : Nat} {f : Finding}
    (h : Rule.scan grammar signs n rule k = some f) : row.Holds rule k f := by
  -- as for reading, the induction is on the budget and the cases are those of the rule
  induction n generalizing rule k f with
  | zero => simp [Rule.scan] at h
  | succ n ih =>
    cases rule with
    | token t =>
      rw [Rule.scan] at h
      cases hs : signs[k]? with
      | none => simp [hs] at h
      | some s =>
        have hshows := row.shows_of_getElem? hs
        cases hv : s.verdict? t with
        | none => simp [hs, hv] at h
        | some v =>
          have hholds := hshows.verdict t v hv
          simp only [hs, hv, Option.bind_some] at h
          cases v with
          | takes =>
            obtain rfl := Option.some.inj h
            exact ⟨Takes.token hholds.1, Nat.le_succ k, fun _ => hholds.2⟩
          | idles =>
            obtain rfl := Option.some.inj h
            exact ⟨Takes.token hholds, Onward.refl row k⟩
          | refuses =>
            obtain rfl := Option.some.inj h
            exact Refuses.token hholds
    | nothing =>
      obtain rfl := Option.some.inj h
      exact ⟨Takes.nothing grammar _, Onward.refl row k⟩
    | phrase p =>
      rw [Rule.scan] at h
      split at h
      · next hp =>
        obtain ⟨s, hs, hphrase⟩ := Option.bind_eq_some_iff.mp hp
        obtain rfl := Option.some.inj h
        obtain ⟨htakes, hlt⟩ := (row.shows_of_getElem? hs).phrase p hphrase
        refine ⟨?_, Nat.le_succ k, fun _ => hlt⟩
        simpa [treesAll, trees] using htakes
      · have hrule := ih h
        cases f with
        | takes ss k' => exact ⟨hrule.1.phrase, hrule.2⟩
        | refuses => exact Refuses.phrase hrule
    | both a b =>
      rw [Rule.scan] at h
      cases ha : Rule.scan grammar signs n a k with
      | none => simp [ha] at h
      | some g =>
        have hfirst := ih ha
        cases g with
        | refuses =>
          simp only [ha] at h
          obtain rfl := Option.some.inj h
          exact Refuses.both_left hfirst b
        | takes ss k₁ =>
          simp only [ha] at h
          obtain ⟨g, hb, rfl⟩ := Option.map_eq_some_iff.mp h
          have hsecond := ih hb
          cases g with
          | refuses => exact Refuses.both_right hfirst.1 hsecond
          | takes us k' =>
            refine ⟨?_, hfirst.2.trans hsecond.2⟩
            rw [treesAll_append]
            exact hfirst.1.both hsecond.1
    | either a b =>
      rw [Rule.scan] at h
      cases ha : Rule.scan grammar signs n a k with
      | none => simp [ha] at h
      | some g =>
        have hfirst := ih ha
        cases g with
        | takes ss k₁ =>
          simp only [ha] at h
          obtain rfl := Option.some.inj h
          exact ⟨hfirst.1.either_left b, hfirst.2⟩
        | refuses =>
          simp only [ha] at h
          have hsecond := ih h
          cases f with
          | takes us k' => exact ⟨Takes.either_right hfirst hsecond.1, hsecond.2⟩
          | refuses => exact Refuses.either hfirst hsecond
    | many a =>
      rw [Rule.scan] at h
      cases ha : Rule.scan grammar signs n a k with
      | none => simp [ha] at h
      | some g =>
        have hitem := ih ha
        cases g with
        | refuses =>
          simp only [ha] at h
          obtain rfl := Option.some.inj h
          exact ⟨Takes.many_refuses hitem, Onward.refl row k⟩
        | takes ss k₁ =>
          simp only [ha] at h
          split at h
          · next hlt =>
            obtain ⟨g, hb, rfl⟩ := Option.map_eq_some_iff.mp h
            have hrest := ih hb
            cases g with
            | refuses =>
              obtain ⟨m, r, hread⟩ := hrest
              exact absurd hread (Rule.read_many_ne_refused grammar m a _ r)
            | takes us k' =>
              refine ⟨?_, hitem.2.trans hrest.2⟩
              rw [treesAll_append]
              exact hitem.1.many_cons (hitem.2.2 hlt) hrest.1
          · next hle =>
            obtain rfl := Option.some.inj h
            obtain rfl : k = k₁ := Nat.le_antisymm hitem.2.1 (Nat.not_lt.mp hle)
            exact ⟨Takes.many_idle hitem.1, Onward.refl row k⟩
    | ahead a =>
      rw [Rule.scan] at h
      cases ha : Rule.scan grammar signs n a k with
      | none => simp [ha] at h
      | some g =>
        have hrule := ih ha
        cases g with
        | takes ss k₁ =>
          simp only [ha] at h
          obtain rfl := Option.some.inj h
          exact ⟨hrule.1.ahead, Onward.refl row k⟩
        | refuses =>
          simp only [ha] at h
          obtain rfl := Option.some.inj h
          exact Refuses.ahead hrule
    | absent a =>
      rw [Rule.scan] at h
      cases ha : Rule.scan grammar signs n a k with
      | none => simp [ha] at h
      | some g =>
        have hrule := ih ha
        cases g with
        | takes ss k₁ =>
          simp only [ha] at h
          obtain rfl := Option.some.inj h
          exact Refuses.absent hrule.1
        | refuses =>
          simp only [ha] at h
          obtain rfl := Option.some.inj h
          exact ⟨Takes.absent hrule, Onward.refl row k⟩
    | node part a =>
      rw [Rule.scan] at h
      cases ha : Rule.scan grammar signs n a k with
      | none => simp [ha] at h
      | some g =>
        have hrule := ih ha
        cases g with
        | takes ss k₁ =>
          simp only [ha] at h
          obtain rfl := Option.some.inj h
          exact ⟨hrule.1.node part, hrule.2⟩
        | refuses =>
          simp only [ha] at h
          obtain rfl := Option.some.inj h
          exact Refuses.node hrule part

theorem takes_of_scan (row : Row grammar c signs) (n : Nat) {rule : Rule P} {ss : List Sketch} {k : Nat}
    (h : Rule.scan grammar signs n rule 0 = some (.takes ss k)) :
    Takes grammar rule c (row.treesAll ss) (row.cursor k) := by
  have hholds := (row.holds_of_scan n h).1
  rwa [row.cursor_zero] at hholds

theorem refuses_of_scan (row : Row grammar c signs) (n : Nat) {rule : Rule P}
    (h : Rule.scan grammar signs n rule 0 = some .refuses) : Refuses grammar rule c := by
  have hholds : Refuses grammar rule (row.cursor 0) := row.holds_of_scan n h
  rwa [row.cursor_zero] at hholds

end Row

end SignatureDocs.Grammar
