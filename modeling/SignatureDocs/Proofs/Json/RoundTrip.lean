import Mathlib
import SignatureDocs.Json.Reader

/-!
Reading inverts writing. A value that holds texts, whole numbers, lists and objects of these is read back from its text
as it was, in both layouts, and the layout of one line has no line feed in it.
-/
namespace SignatureDocs.Json

open SignatureDocs.Text

/-- Controls that have no escape of their own and are written by their code. -/
def isCoded (c : Char) : Bool :=
  c < ' ' && c != '\x08' && c != '\t' && c != '\n' && c != '\x0c' && c != '\r'

/-- The piece that is read for a character of a string. -/
def pieceOf (c : Char) : Piece := if isCoded c then .unit c.toNat else .char c

theorem isCoded_lt {c : Char} (h : isCoded c = true) : c.toNat < 32 := by
  simp only [isCoded, Bool.and_eq_true, decide_eq_true_eq] at h
  exact h.1.1.1.1.1

theorem spell?_pieceOf (c : Char) (ps : List Piece) :
    spell? (pieceOf c :: ps) = (spell? ps).map (c :: ·) := by
  unfold pieceOf
  split
  · next hc =>
    -- the code of a control is no half of another character
    have hlt := isCoded_lt hc
    have hhigh : isHighHalf c.toNat = false := by simp [isHighHalf]; omega
    have hlow : isLowHalf c.toNat = false := by simp [isLowHalf]; omega
    cases ps with
    | nil => simp [spell?, hhigh, hlow]
    | cons p ps => cases p <;> simp [spell?, hhigh, hlow]
  · rfl

theorem spell?_map_pieceOf (s : List Char) : spell? (s.map pieceOf) = some s := by
  induction s with
  | nil => rfl
  | cons c s ih => rw [List.map_cons, spell?_pieceOf, ih, Option.map_some]

theorem hexPair_values : ∀ n < 32, (hexPair n).mapM hexValue? = some [n / 16, n % 16] := by
  decide

/-- Four digits of which the last two are the code of a control. -/
theorem fourDigits?_hexPair {n : Nat} (hn : n < 32) (cs : Source) :
    fourDigits? ((['0', '0'] ++ hexPair n).map some ++ cs) = some n ∧
      ((['0', '0'] ++ hexPair n).map some ++ cs).drop 4 = cs := by
  obtain ⟨x, y, hpair⟩ : ∃ x y, hexPair n = [x, y] := by
    have hlen : ∀ n < 32, (hexPair n).length = 2 := by decide
    exact List.length_eq_two.1 (hlen n hn)
  have hvalues := hexPair_values n hn
  have hzero : hexValue? '0' = some 0 := rfl
  rw [hpair] at hvalues ⊢
  cases hx : hexValue? x with
  | none => simp [hx] at hvalues
  | some a =>
    cases hy : hexValue? y with
    | none => simp [hx, hy] at hvalues
    | some b =>
      simp only [List.mapM_cons, List.mapM_nil, hx, hy, Option.pure_def, Option.bind_eq_bind, Option.bind_some,
        Option.some.injEq, List.cons.injEq, and_true] at hvalues
      refine ⟨?_, by simp⟩
      simp [fourDigits?, hx, hy, hzero]
      omega

/-- What is written for a character is read as its piece. -/
theorem stringTail_escapeChar (c : Char) (b : Option Char) (budget cs : Source) :
    stringTail (b :: budget) ((escapeChar c).map some ++ cs) =
      (stringTail budget cs).map fun q => (pieceOf c :: q.1, q.2) := by
  by_cases hcoded : isCoded c = true
  · have hlt := isCoded_lt hcoded
    have hescape : escapeChar c = ['\\', 'u'] ++ (['0', '0'] ++ hexPair c.toNat) := by
      simp only [isCoded, Bool.and_eq_true, bne_iff_ne, decide_eq_true_eq] at hcoded
      obtain ⟨⟨⟨⟨⟨hspace, hb⟩, ht⟩, hn⟩, hf⟩, hr⟩ := hcoded
      have hquote : c ≠ '"' := by rintro rfl; exact absurd hlt (by decide)
      have hslash : c ≠ '\\' := by rintro rfl; exact absurd hlt (by decide)
      simp [escapeChar, hquote, hslash, hb, ht, hn, hf, hr, hspace]
    obtain ⟨hvalue, hdrop⟩ := fourDigits?_hexPair hlt cs
    rw [hescape, List.map_append, List.append_assoc, pieceOf, if_pos hcoded]
    simp only [List.map_cons, List.map_nil, List.cons_append, List.nil_append] at hvalue hdrop ⊢
    simp [stringTail, escape, hvalue, hdrop]
  · rw [pieceOf, if_neg hcoded]
    unfold escapeChar
    split_ifs with h1 h2 h3 h4 h5 h6 h7 hspace
    all_goals try subst c
    all_goals try rfl
    -- a control that is left would have been written by its code
    · exact absurd (by simp [isCoded, h3, h4, h5, h6, h7, hspace]) hcoded
    · simp [stringTail, h1, h2, hspace]

theorem length_le_flatMap_escapeChar (s : List Char) : s.length ≤ (s.flatMap escapeChar).length := by
  induction s with
  | nil => exact Nat.zero_le _
  | cons c s ih =>
    have hc : 1 ≤ (escapeChar c).length := by
      unfold escapeChar
      split_ifs <;> simp
    rw [List.flatMap_cons, List.length_append, List.length_cons]
    omega

theorem stringTail_flatMap (s : List Char) {budget : Source} (h : s.length < budget.length) (rest : Source) :
    stringTail budget ((s.flatMap escapeChar).map some ++ some '"' :: rest) = some (s.map pieceOf, rest) := by
  induction s generalizing budget with
  | nil =>
    cases budget with
    | nil => simp at h
    | cons b budget => rfl
  | cons c s ih =>
    cases budget with
    | nil => simp at h
    | cons b budget =>
      rw [List.flatMap_cons, List.map_append, List.append_assoc, stringTail_escapeChar,
        ih (by simpa using h), Option.map_some, List.map_cons]

/-- A string is read back from its text. -/
theorem stringToken_quoted (s : List Char) (rest : Source) :
    stringToken ((quoted (some s)).map some ++ rest) = some (some s, rest) := by
  have hopen : (quoted (some s)).map some ++ rest =
      some '"' :: ((s.flatMap escapeChar).map some ++ some '"' :: rest) := by
    simp [quoted]
  have hlong : s.length < (none :: ((s.flatMap escapeChar).map some ++ some '"' :: rest)).length := by
    have hle := length_le_flatMap_escapeChar s
    simp only [List.length_cons, List.length_append, List.length_map]
    omega
  rw [hopen, stringToken, stringTail_flatMap s hlong, Option.map_some]
  simp only [spell?_map_pieceOf]

theorem skipGap_newLine (l : Layout) (depth : Nat) (cs : Source) :
    skipGap ((l.newLine depth).map some ++ cs) = skipGap cs := by
  have hgap : ∀ c ∈ (l.newLine depth).map some, isGap c = true := by
    intro c hc
    cases l with
    | compact => simp [Layout.newLine] at hc
    | pretty =>
      simp only [Layout.newLine, List.map_cons, List.map_replicate, List.mem_cons, List.mem_replicate] at hc
      rcases hc with rfl | ⟨-, rfl⟩ <;> rfl
  exact List.dropWhile_append_of_pos hgap

theorem skipGap_cons {c : Char} (hc : isGap (some c) = false) (cs : Source) :
    skipGap (some c :: cs) = some c :: cs := by
  rw [skipGap, List.dropWhile_cons_of_neg (by simp [hc])]

/-- Does a value end before this? Behind a number there might be more of it. -/
def isEnd (rest : Source) : Bool :=
  rest.head?.all fun c => isGap c || c = some ',' || c = some ']' || c = some '\x7d'

theorem isEnd_newLine (l : Layout) (depth : Nat) {rest : Source} (h : isEnd rest = true) :
    isEnd ((l.newLine depth).map some ++ rest) = true := by
  cases l with
  | compact => exact h
  | pretty => rfl

/-- The characters that may stand after a value. -/
theorem isEnd_cons {c : Option Char} {rest : Source} (h : isEnd (c :: rest) = true) :
    c = some ' ' ∨ c = some '\n' ∨ c = some '\t' ∨ c = some '\r' ∨ c = some ',' ∨ c = some ']' ∨ c = some '\x7d' := by
  simpa [isEnd, isGap, or_assoc] using h

/-- A thing is read back from its text, which starts with a character that is no gap. -/
structure ReadsBack {α : Type} (item : Reader α) (a : α) (text : List Char) : Prop where
  starts : ∃ c cs, text = c :: cs ∧ isGap (some c) = false
  reads : ∀ rest, isEnd rest = true → item (text.map some ++ rest) = some (a, rest)

theorem ReadsBack.skipGap {α : Type} {item : Reader α} {a : α} {text : List Char} (h : ReadsBack item a text)
    (rest : Source) : Json.skipGap (text.map some ++ rest) = text.map some ++ rest := by
  obtain ⟨c, cs, rfl, hc⟩ := h.starts
  exact skipGap_cons hc _

/-- The text of a field. -/
def fieldText (l : Layout) (depth : Nat) (f : Option (List Char) × Json) : List Char :=
  quoted f.1 ++ l.colon ++ render l depth f.2

section Items

variable {α : Type} (l : Layout) (depth : Nat) (text : α → List Char)

/-- Things behind the first one, each on a line of its own if lines are used. -/
def moreText (more : List α) : List Char := more.flatMap fun a => ',' :: (l.newLine (depth + 1) ++ text a)

/-- Things between the marks around them. -/
def listText (close : Char) (a : α) (more : List α) : List Char :=
  l.newLine (depth + 1) ++ (text a ++ (moreText l depth text more ++ (l.newLine depth ++ [close])))

theorem length_le_moreText (more : List α) : more.length ≤ (moreText l depth text more).length := by
  induction more with
  | nil => exact Nat.zero_le _
  | cons a more ih =>
    simp only [moreText, List.flatMap_cons, List.length_append, List.length_cons] at ih ⊢
    omega

theorem length_lt_listText (close : Char) {a b : α} {more : List α} (hb : b ∈ a :: more) :
    (text b).length < (listText l depth text close a more).length := by
  have hmore : b ∈ more → (text b).length ≤ (moreText l depth text more).length := by
    intro hb
    have hwithin : text b <:+: moreText l depth text more := by
      obtain ⟨xs, ys, rfl⟩ := List.append_of_mem hb
      refine ⟨moreText l depth text xs ++ ',' :: l.newLine (depth + 1), moreText l depth text ys, ?_⟩
      simp [moreText]
    exact hwithin.length_le
  simp only [listText, List.length_append, List.length_cons, List.length_nil]
  rcases List.mem_cons.1 hb with rfl | hb
  · omega
  · have hle := hmore hb
    omega

variable {l depth text} {close : Char} {item : Reader α}

/-- Things that are read back one by one are read back as a list, if the steps suffice. -/
theorem itemsTail_listText (hclose : close = ']' ∨ close = '\x7d') {a : α} {more : List α}
    (hall : ∀ b ∈ a :: more, ReadsBack item b (text b)) {budget : Source} (hbudget : more.length < budget.length)
    (rest : Source) :
    itemsTail close item budget ((listText l depth text close a more).map some ++ rest) = some (a :: more, rest) := by
  have hgap : isGap (some close) = false := by rcases hclose with rfl | rfl <;> rfl
  have hcomma : close ≠ ',' := by rcases hclose with rfl | rfl <;> decide
  have hend : isEnd (some close :: rest) = true := by rcases hclose with rfl | rfl <;> rfl
  induction more generalizing a budget with
  | nil =>
    obtain ⟨b, budget, rfl⟩ := List.exists_cons_of_length_pos (Nat.zero_lt_of_lt hbudget)
    have ha := hall a (by simp)
    simp only [listText, moreText, List.flatMap_nil, List.nil_append, List.map_append, List.append_assoc]
    rw [itemsTail, skipGap_newLine, ha.skipGap, List.map_cons, List.map_nil, List.singleton_append,
      ha.reads _ (isEnd_newLine l depth hend)]
    simp only [skipGap_newLine]
    rw [skipGap_cons hgap]
    simp
  | cons b more ih =>
    obtain ⟨_, budget, rfl⟩ := List.exists_cons_of_length_pos (Nat.zero_lt_of_lt hbudget)
    have ha := hall a (by simp)
    -- behind the comma the rest of the list is read as the list from its first thing on
    have hrest := ih (a := b) (fun x hx => hall x (List.mem_cons_of_mem a hx)) (by simpa using hbudget)
    simp only [listText, moreText, List.flatMap_cons, List.cons_append, List.map_append, List.map_cons,
      List.append_assoc] at hrest ⊢
    rw [itemsTail, skipGap_newLine, ha.skipGap, ha.reads _ rfl]
    dsimp only
    rw [skipGap_cons rfl]
    simp only [if_neg hcomma.symm, if_true]
    rw [hrest]
    rfl

theorem itemList_listText (hclose : close = ']' ∨ close = '\x7d') {a : α} {more : List α}
    (hall : ∀ b ∈ a :: more, ReadsBack item b (text b)) (hfirst : (text a).head? ≠ some close) (rest : Source) :
    itemList close item ((listText l depth text close a more).map some ++ rest) = some (a :: more, rest) := by
  obtain ⟨c, cs, htext, hc⟩ := (hall a (by simp)).starts
  have hsteps : more.length < (none :: ((listText l depth text close a more).map some ++ rest)).length := by
    have hle := length_le_moreText l depth text more
    simp only [listText, List.length_cons, List.length_append, List.length_map]
    omega
  obtain ⟨tail, hskip⟩ : ∃ tail, skipGap ((listText l depth text close a more).map some ++ rest) = some c :: tail := by
    rw [listText, List.map_append, List.append_assoc, skipGap_newLine, htext]
    exact ⟨_, skipGap_cons hc _⟩
  have hne : ¬ c = close := by
    rintro rfl
    exact hfirst (by simp [htext])
  rw [itemList, hskip]
  simp only [if_neg hne]
  exact itemsTail_listText hclose hall hsteps rest

end Items

theorem renderItems_eq (l : Layout) (depth : Nat) (vs : List Json) :
    renderItems l (depth + 1) vs = moreText l depth (render l (depth + 1)) vs := by
  induction vs with
  | nil => rfl
  | cons v vs ih => simp only [renderItems, ih, moreText, List.flatMap_cons, List.cons_append, List.append_assoc]

theorem render_array (l : Layout) (depth : Nat) (v : Json) (vs : List Json) :
    render l depth (.array (v :: vs)) = '[' :: listText l depth (render l (depth + 1)) ']' v vs := by
  simp only [render, renderItems_eq, listText, List.cons_append, List.append_assoc]

theorem renderFields_eq (l : Layout) (depth : Nat) (fs : List (Option (List Char) × Json)) :
    renderFields l (depth + 1) fs = moreText l depth (fieldText l (depth + 1)) fs := by
  induction fs with
  | nil => rfl
  | cons f fs ih =>
    simp only [renderFields, ih, moreText, fieldText, List.flatMap_cons, List.cons_append, List.append_assoc]

theorem render_object (l : Layout) (depth : Nat) (f : Option (List Char) × Json)
    (fs : List (Option (List Char) × Json)) :
    render l depth (.object (f :: fs)) = '\x7b' :: listText l depth (fieldText l (depth + 1)) '\x7d' f fs := by
  simp only [render, renderFields_eq, listText, fieldText, List.cons_append, List.append_assoc]

/-- A value all of whose parts have a text of their own, and whose numbers are whole. -/
inductive Textual : Json → Prop
  | null : Textual null
  | bool (b : Bool) : Textual (bool b)
  | number (n : Nat) : Textual (ofNat n)
  | string (s : List Char) : Textual (string (some s))
  | array {items : List Json} (h : ∀ v ∈ items, Textual v) : Textual (array items)
  | object {fields : List (Option (List Char) × Json)} (hnames : ∀ f ∈ fields, f.1.isSome = true)
      (hvalues : ∀ f ∈ fields, Textual f.2) : Textual (object fields)

theorem isDigit_of_mem {n : Nat} {c : Char} (h : c ∈ Nat.toDigits 10 n) : c.isDigit = true :=
  Nat.isDigit_of_mem_toDigits (by decide) (by decide) h

/-- The digits of a number start with a digit. -/
theorem toDigits_eq_cons (n : Nat) : ∃ c cs, Nat.toDigits 10 n = c :: cs ∧ c.isDigit = true := by
  obtain ⟨c, cs, hcons⟩ := List.exists_cons_of_ne_nil (Nat.toDigits_ne_nil (n := n) (b := 10))
  exact ⟨c, cs, hcons, isDigit_of_mem (hcons ▸ List.mem_cons_self)⟩

/-- No zero stands in front of other digits. -/
theorem head?_toDigits (n : Nat) : (Nat.toDigits 10 n).head? = some '0' → (Nat.toDigits 10 n).length = 1 := by
  induction n using Nat.strong_induction_on with
  | _ n ih =>
    rw [Nat.toDigits_eq_if (by decide)]
    split_ifs with hsmall
    · exact fun _ => rfl
    · have hhead : (Nat.toDigits 10 (n / 10) ++ [(n % 10).digitChar]).head? = (Nat.toDigits 10 (n / 10)).head? :=
        List.head?_append_of_ne_nil _ Nat.toDigits_ne_nil
      intro hzero
      rw [hhead] at hzero
      -- the digits in front would be a zero alone, but they are those of a number from 1 to 9
      have hone := ih (n / 10) (by omega) hzero
      have hlt : n / 10 < 10 := by
        by_contra hlarge
        rw [Nat.toDigits_eq_if (by decide), if_neg hlarge, List.length_append, List.length_singleton] at hone
        have hpos := Nat.length_toDigits_pos (b := 10) (n := n / 10 / 10)
        omega
      have hdigits : ∀ d < 10, 0 < d → d.digitChar ≠ '0' := by decide
      rw [Nat.toDigits_of_lt_base hlt] at hzero
      exact absurd (by simpa using hzero) (hdigits _ hlt (by omega))

theorem someDigits_toDigits (n : Nat) {rest : Source} (hrest : isEnd rest = true) :
    someDigits ((Nat.toDigits 10 n).map some ++ rest) = some (Nat.toDigits 10 n, rest) := by
  -- the run of digits is not cut short, and none of what follows belongs to it
  have hnone : rest.takeWhile (fun c => c.any Char.isDigit) = [] := by
    cases rest with
    | nil => rfl
    | cons c rest =>
      rcases isEnd_cons hrest with rfl | rfl | rfl | rfl | rfl | rfl | rfl <;> rfl
  have hrun : digitRun ((Nat.toDigits 10 n).map some ++ rest) = Nat.toDigits 10 n := by
    have hall : ∀ c ∈ (Nat.toDigits 10 n).map some, c.any Char.isDigit = true := by
      intro c hc
      obtain ⟨d, hd, rfl⟩ := List.mem_map.1 hc
      exact isDigit_of_mem hd
    rw [digitRun, List.takeWhile_append_of_pos hall, hnone, List.append_nil, List.map_map]
    exact List.map_id _
  obtain ⟨c, cs, hcons, -⟩ := toDigits_eq_cons n
  rw [someDigits, hrun, hcons]
  simp

/-- The end of a value is no fraction and no exponent. -/
theorem fraction_of_isEnd {rest : Source} (hrest : isEnd rest = true) :
    fraction rest = some ([], rest) ∧ exponent rest = some ([], rest) := by
  cases rest with
  | nil => exact ⟨rfl, rfl⟩
  | cons c rest => rcases isEnd_cons hrest with rfl | rfl | rfl | rfl | rfl | rfl | rfl <;> exact ⟨rfl, rfl⟩

theorem unsignedNumber_toDigits (n : Nat) {rest : Source} (hrest : isEnd rest = true) :
    unsignedNumber ((Nat.toDigits 10 n).map some ++ rest) = some (Nat.toDigits 10 n, rest) := by
  obtain ⟨hfraction, hexponent⟩ := fraction_of_isEnd hrest
  simpa [unsignedNumber, someDigits_toDigits n hrest, hfraction, hexponent] using head?_toDigits n

/-- A value starts with a character of its own kind. -/
theorem Textual.starts {v : Json} (h : v.Textual) (l : Layout) (depth : Nat) :
    ∃ c cs, render l depth v = c :: cs ∧ isGap (some c) = false ∧ c ≠ ']' := by
  cases h with
  | null => exact ⟨_, _, rfl, rfl, by decide⟩
  | bool b => cases b <;> exact ⟨_, _, rfl, rfl, by decide⟩
  | number n =>
    obtain ⟨c, cs, hcons, hc⟩ := toDigits_eq_cons n
    refine ⟨c, cs, hcons, ?_, by rintro rfl; cases hc⟩
    by_contra hgap
    simp only [isGap, Bool.not_eq_false, Bool.or_eq_true, decide_eq_true_eq, Option.some.injEq] at hgap
    rcases hgap with ((rfl | rfl) | rfl) | rfl <;> cases hc
  | string s => exact ⟨'"', _, by rw [render, quoted]; rfl, rfl, by decide⟩
  | @array items h =>
    cases items with
    | nil => exact ⟨_, _, rfl, rfl, by decide⟩
    | cons v vs => exact ⟨'[', _, render_array l depth v vs, rfl, by decide⟩
  | @object fields hnames hvalues =>
    cases fields with
    | nil => exact ⟨_, _, rfl, rfl, by decide⟩
    | cons f fs => exact ⟨'\x7b', _, render_object l depth f fs, rfl, by decide⟩

/-- A field is read back if its value is. -/
theorem readsBack_field {l : Layout} {depth : Nat} {value : Reader Json} {s : List Char} {v : Json}
    (h : ReadsBack value v (render l depth v)) :
    ReadsBack (fieldOf value) (some s, v) (fieldText l depth (some s, v)) where
  starts := ⟨'"', _, by simp only [fieldText, quoted, List.cons_append]; rfl, rfl⟩
  reads rest hrest := by
    have hcolon : skipGap (l.colon.map some ++ ((render l depth v).map some ++ rest)) =
        l.colon.map some ++ ((render l depth v).map some ++ rest) := by
      cases l <;> exact skipGap_cons rfl _
    have hvalue : ∃ gap, l.colon = ':' :: gap ∧
        skipGap (gap.map some ++ ((render l depth v).map some ++ rest)) = (render l depth v).map some ++ rest := by
      cases l with
      | compact => exact ⟨[], rfl, h.skipGap rest⟩
      | pretty => exact ⟨[' '], rfl, h.skipGap rest⟩
    obtain ⟨gap, hgap, hskip⟩ := hvalue
    simp only [fieldText, List.map_append, List.append_assoc]
    simp only [fieldOf, stringToken_quoted, hcolon]
    simp only [hgap, List.map_cons, List.cons_append, hskip, h.reads rest hrest, Option.map_some]

theorem valueUpTo_string (n : Nat) (cs : Source) :
    valueUpTo (n + 1) (some '"' :: cs) = (stringToken (some '"' :: cs)).map fun q => (.string q.1, q.2) := rfl

theorem valueUpTo_array (n : Nat) (cs : Source) :
    valueUpTo (n + 1) (some '[' :: cs) = (itemList ']' (valueUpTo n) cs).map fun q => (.array q.1, q.2) := rfl

theorem valueUpTo_object (n : Nat) (cs : Source) :
    valueUpTo (n + 1) (some '\x7b' :: cs) =
      (itemList '\x7d' (fieldOf (valueUpTo n)) cs).map fun q => (.object q.1, q.2) := rfl

theorem valueUpTo_number (n : Nat) {c : Char} (hc : c.isDigit = true) (cs : Source) :
    valueUpTo (n + 1) (some c :: cs) = (unsignedNumber (some c :: cs)).map fun q => (.number q.1, q.2) := by
  have hsign : numberToken (some c :: cs) = unsignedNumber (some c :: cs) := by
    unfold numberToken
    split
    · next heq => cases heq; cases hc
    · rfl
  simp only [valueUpTo]
  split
  all_goals first
    | next heq => cases heq; cases hc
    | rw [hsign]

/-- A value is read back from its text with as many nested values allowed as the text has characters. -/
theorem readsBack_render {v : Json} (h : v.Textual) {l : Layout} {depth n : Nat}
    (hn : (render l depth v).length < n) : ReadsBack (valueUpTo n) v (render l depth v) := by
  -- each nested value has a shorter text, so the bound on the depth carries the induction
  induction n generalizing v depth with
  | zero => simp at hn
  | succ n ih =>
    obtain ⟨c, cs, hstart, hc, -⟩ := h.starts l depth
    refine ⟨⟨c, cs, hstart, hc⟩, fun rest hrest => ?_⟩
    clear hstart
    cases h with
    | null => rfl
    | bool b => cases b <;> rfl
    | number m =>
      have hread := unsignedNumber_toDigits m hrest
      obtain ⟨d, ds, hcons, hd⟩ := toDigits_eq_cons m
      rw [ofNat, render, hcons, List.map_cons, List.cons_append, valueUpTo_number n hd]
      rw [hcons, List.map_cons, List.cons_append] at hread
      rw [hread, Option.map_some]
    | string s =>
      have hread := stringToken_quoted s rest
      simp only [render, quoted, List.cons_append, List.map_cons] at hread ⊢
      rw [valueUpTo_string, hread, Option.map_some]
    | @array items hitems =>
      cases items with
      | nil => rfl
      | cons v vs =>
        rw [render_array, List.length_cons] at hn
        have hall : ∀ u ∈ v :: vs, ReadsBack (valueUpTo n) u (render l (depth + 1) u) := by
          intro u hu
          apply ih (hitems u hu)
          have hlt := length_lt_listText l depth (render l (depth + 1)) ']' hu
          omega
        have hclose : (render l (depth + 1) v).head? ≠ some ']' := by
          obtain ⟨x, xs, hx, -, hne⟩ := (hitems v (by simp)).starts l (depth + 1)
          simpa [hx] using hne
        rw [render_array, List.map_cons, List.cons_append, valueUpTo_array,
          itemList_listText (Or.inl rfl) hall hclose, Option.map_some]
    | @object fields hnames hvalues =>
      cases fields with
      | nil => rfl
      | cons f fs =>
        rw [render_object, List.length_cons] at hn
        have hall : ∀ g ∈ f :: fs, ReadsBack (fieldOf (valueUpTo n)) g (fieldText l (depth + 1) g) := by
          rintro ⟨k, u⟩ hu
          obtain ⟨s, rfl⟩ := Option.isSome_iff_exists.1 (hnames _ hu)
          apply readsBack_field
          apply ih (hvalues _ hu)
          have hlt := length_lt_listText l depth (fieldText l (depth + 1)) '\x7d' hu
          simp only [fieldText, List.length_append] at hlt ⊢
          omega
        have hclose : (fieldText l (depth + 1) f).head? ≠ some '\x7d' := by
          simp [fieldText, quoted]
        rw [render_object, List.map_cons, List.cons_append, valueUpTo_object,
          itemList_listText (Or.inr rfl) hall hclose, Option.map_some]

/-- The text of a value, with a gap behind it, has the value and nothing else in it. -/
theorem parse?_render {v : Json} (h : v.Textual) (l : Layout) {gap : List Char}
    (hgap : ∀ c ∈ gap, isGap (some c) = true) : parse? ((render l 0 v ++ gap).map some) = some v := by
  rw [List.map_append]
  have hlong : (render l 0 v).length < ((render l 0 v).map some ++ gap.map some).length + 1 := by
    simp only [List.length_map, List.length_append]
    omega
  have hread := readsBack_render h hlong
  have hempty : skipGap (gap.map some) = [] := by
    rw [skipGap, List.dropWhile_eq_nil_iff]
    simpa using hgap
  have hend : isEnd (gap.map some) = true := by
    cases gap with
    | nil => rfl
    | cons c gap => simp [isEnd, hgap c List.mem_cons_self]
  rw [parse?, hread.skipGap, hread.reads _ hend]
  simp [hempty]

theorem newline_not_mem_escapeChar (c : Char) : '\n' ∉ escapeChar c := by
  unfold escapeChar
  split_ifs with h1 h2 h3 h4 h5 h6 h7 hspace
  all_goals try decide
  · have hpair : ∀ n < 32, '\n' ∉ hexPair n := by decide
    simpa using hpair c.toNat hspace
  · simpa [eq_comm] using h5

theorem newline_not_mem_quoted (s : Option (List Char)) : '\n' ∉ quoted s := by
  simp [quoted, newline_not_mem_escapeChar]

theorem newline_not_mem_listText {α : Type} {depth : Nat} {text : α → List Char} {close : Char} {a : α}
    {more : List α} (hclose : close ≠ '\n') (h : ∀ b ∈ a :: more, '\n' ∉ text b) :
    '\n' ∉ listText .compact depth text close a more := by
  have hmore : '\n' ∉ moreText .compact depth text more := by
    simp only [moreText, Layout.newLine, List.mem_flatMap, List.mem_cons, List.nil_append, not_exists, not_and, not_or]
    exact fun b hb => ⟨by decide, h b (List.mem_cons_of_mem a hb)⟩
  simp [listText, Layout.newLine, h a (by simp), hmore, hclose.symm]

theorem Textual.newline_not_mem {v : Json} (h : v.Textual) (depth : Nat) : '\n' ∉ render .compact depth v := by
  induction h generalizing depth with
  | null => simp [render]
  | bool b =>
    have hnames : ∀ b : Bool, '\n' ∉ (toString b).toList := by decide
    simpa [render] using hnames b
  | number n =>
    intro hmem
    cases isDigit_of_mem (n := n) hmem
  | string s => exact newline_not_mem_quoted _
  | @array items h ih =>
    cases items with
    | nil => simp [render]
    | cons v vs =>
      rw [render_array]
      exact List.not_mem_cons_of_ne_of_not_mem (by decide) (newline_not_mem_listText (by decide) fun u hu => ih u hu _)
  | @object fields hnames hvalues ih =>
    cases fields with
    | nil => simp [render]
    | cons f fs =>
      have hfield : ∀ g ∈ f :: fs, '\n' ∉ fieldText .compact (depth + 1) g := by
        intro g hg
        simp [fieldText, Layout.colon, newline_not_mem_quoted, ih g hg]
      rw [render_object]
      exact List.not_mem_cons_of_ne_of_not_mem (by decide) (newline_not_mem_listText (by decide) hfield)

end SignatureDocs.Json
