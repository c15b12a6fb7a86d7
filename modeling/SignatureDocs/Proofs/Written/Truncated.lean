import SignatureDocs.Proofs.Written.Unclosed

/-!
Written declarations that are cut off. A text that ends between the braces of an item either ends in the body of a
class or interface, and reading halts before it, or it opens more braces than it closes. Nothing is extracted from it.
-/
namespace SignatureDocs.Written

open SignatureDocs.Text SignatureDocs.Grammar

section

variable {a : Alphabet} {n : Int} {rest : List Char}

theorem Name.plain (name : Name) (hrest : breaksWord rest = true) (h : Plain a n rest) :
    Plain a n (name.chars ++ rest) :=
  .word (by simp [Alphabet.isStart, name.isUpper]) (fun c hc => isWordChar_of_isAlphanum (name.isAlphanum c hc))
    hrest h

/-- The alphabet has all marks that stand in a method. -/
def Methodical (a : Alphabet) : Prop := bodyAlphabet.marks ⊆ a.marks

theorem Methodical.mark (ha : Methodical a) {c : Char} (hc : c ∈ bodyAlphabet.marks) (h : Plain a n rest) :
    Plain a n (c :: rest) := by
  have hweight : weight c = 0 := by
    fin_cases hc <;> rfl
  have hplain := Plain.mark (ha hc) h
  rwa [hweight, Int.zero_add] at hplain

theorem breaksWord_moreChars (ps : List Parameter) (hrest : breaksWord rest = true) :
    breaksWord (moreChars ps ++ rest) = true := by
  cases ps with
  | nil => exact hrest
  | cons p ps => rfl

theorem Parameter.plain (p : Parameter) (ha : Methodical a) (hrest : breaksWord rest = true) (h : Plain a n rest) :
    Plain a n (p.chars ++ rest) := by
  have htype : Plain a n (':' :: ' ' :: (p.type.chars ++ rest)) :=
    ha.mark (by simp [bodyAlphabet]) (.blank (.inl rfl) (p.type.plain hrest h))
  rw [Parameter.chars, List.append_assoc]
  cases hp : p.optional with
  | false => exact p.name.plain rfl htype
  | true => exact p.name.plain rfl (ha.mark (by simp [bodyAlphabet]) htype)

theorem plain_moreChars (ps : List Parameter) (ha : Methodical a) (hrest : breaksWord rest = true)
    (h : Plain a n rest) : Plain a n (moreChars ps ++ rest) := by
  induction ps with
  | nil => exact h
  | cons p ps ih =>
    have hp := p.plain ha (breaksWord_moreChars ps hrest) ih
    have hcons : moreChars (p :: ps) ++ rest = ',' :: ' ' :: (p.chars ++ (moreChars ps ++ rest)) := by
      simp [moreChars]
    rw [hcons]
    exact ha.mark (by simp [bodyAlphabet]) (.blank (.inl rfl) hp)

theorem plain_parameterChars (ps : List Parameter) (ha : Methodical a) (hrest : breaksWord rest = true)
    (h : Plain a n rest) : Plain a n (parameterChars ps ++ rest) := by
  cases ps with
  | nil => exact h
  | cons p ps =>
    rw [parameterChars, List.append_assoc]
    exact p.plain ha (breaksWord_moreChars ps hrest) (plain_moreChars ps ha hrest h)

namespace Method

theorem plain_signature (m : Method) (ha : Methodical a) (h : Plain a n rest) : Plain a n (m.signature ++ rest) := by
  have hmark (c : Char) (hc : c ∈ bodyAlphabet.marks) {rest : List Char} (h : Plain a n rest) :
      Plain a n (c :: rest) := ha.mark hc h
  have hresult := m.result.plain rfl (hmark ';' (by simp [bodyAlphabet]) h)
  have hcolon := hmark ':' (by simp [bodyAlphabet]) (.blank (.inl rfl) hresult)
  have hinner := plain_parameterChars m.parameters ha rfl (hmark ')' (by simp [bodyAlphabet]) hcolon)
  rw [signature_append, inner]
  simp only [List.append_assoc, List.cons_append]
  exact m.name.plain rfl (hmark '(' (by simp [bodyAlphabet]) hinner)

theorem plain (m : Method) (ha : Methodical a) (h : Plain a n rest) : Plain a n (m.chars ++ rest) := by
  have hsignature := m.plain_signature ha (.blank (.inr rfl) h)
  rw [chars, List.append_assoc, List.append_assoc]
  cases m.comment with
  | none => exact hsignature
  | some c =>
    have hcomment := Plain.remark c.isRemark (.blank (.inr rfl) hsignature)
    simpa [Comment.chars] using hcomment

end Method

theorem plain_methods (ms : List Method) (ha : Methodical a) (h : Plain a n rest) :
    Plain a n (ms.flatMap Method.chars ++ rest) := by
  induction ms with
  | nil => exact h
  | cons m ms ih =>
    rw [List.flatMap_cons, List.append_assoc]
    exact m.plain ha ih

end

namespace Item

/-- What stands before the opening brace of an item. -/
def title : Item → List Char
  | .declaration kind name _ => openingChars kind ++ (name.chars ++ [' '])
  | .scope name _ => scopeChars ++ (name.chars ++ [' '])

/-- What stands between the braces of an item. -/
def inside : Item → List Char
  | .declaration _ _ methods => '\n' :: methods.flatMap Method.chars
  | .scope _ items => '\n' :: itemChars items

theorem chars_eq_braced (i : Item) : i.chars = i.title ++ '\x7b' :: (i.inside ++ ['\x7d', '\n']) := by
  cases i <;> simp [chars, title, inside]

theorem declaration_title (kind : DeclarationKind) (name : Name) (ms : List Method) (rest : List Char) :
    (Item.declaration kind name ms).title ++ rest = openingChars kind ++ (name.chars ++ ' ' :: rest) := by
  simp [title]

theorem scope_title (name : Name) (items : List Item) (rest : List Char) :
    (Item.scope name items).title ++ rest = scopeChars ++ (name.chars ++ ' ' :: rest) := by
  simp [title]

variable {n : Int} {rest : List Char}

theorem plain_title (i : Item) (h : Plain fileAlphabet n rest) : Plain fileAlphabet n (i.title ++ rest) := by
  have hname (name : Name) : Plain fileAlphabet n (name.chars ++ ' ' :: rest) := name.plain rfl (.blank (.inl rfl) h)
  have hword {c : Char} (hc : fileAlphabet.isStart c = true) (w : List Char) (hw : w.all isWordChar = true)
      {text : List Char} (htext : Plain fileAlphabet n text) : Plain fileAlphabet n (c :: (w ++ ' ' :: text)) :=
    .word hc (List.all_eq_true.mp hw) rfl (.blank (.inl rfl) htext)
  cases i with
  | declaration kind name methods =>
    have htitle := hname name
    rw [declaration_title]
    cases kind with
    | interfaceKind => exact hword rfl "nterface".toList rfl htitle
    | classKind => exact hword rfl "eclare".toList rfl (hword rfl "lass".toList rfl htitle)
  | scope name items =>
    rw [scope_title]
    exact hword rfl "amespace".toList rfl (hname name)

/-- There are only letters, digits and spaces before the brace. -/
theorem light_title (i : Item) : ∀ c ∈ i.title, weight c = 0 ∧ c ≠ '/' := by
  have hlight {c : Char} (hc : (c.isAlphanum || c == ' ') = true) : weight c = 0 ∧ c ≠ '/' := by
    refine ⟨?_, ?_⟩
    · rw [weight, if_neg, if_neg] <;> rintro rfl <;> exact absurd hc (by decide)
    · rintro rfl
      exact absurd hc (by decide)
  have hname (name : Name) : ∀ c ∈ name.chars ++ [' '], (c.isAlphanum || c == ' ') = true := by
    intro c hc
    simp only [Name.chars, List.cons_append, List.mem_cons, List.mem_append, List.not_mem_nil, or_false] at hc
    rcases hc with rfl | hc | rfl
    · simp [Char.isAlphanum, Char.isAlpha, name.isUpper]
    · simp [name.isAlphanum c hc]
    · rfl
  have hopening (kind : DeclarationKind) : (openingChars kind).all (fun c => c.isAlphanum || c == ' ') = true := by
    cases kind <;> rfl
  have hscope : scopeChars.all (fun c => c.isAlphanum || c == ' ') = true := rfl
  intro c hc
  apply hlight
  cases i with
  | declaration kind name methods =>
    rcases List.mem_append.mp hc with hc | hc
    · exact List.all_eq_true.mp (hopening kind) c hc
    · exact hname name c hc
  | scope name items =>
    rcases List.mem_append.mp hc with hc | hc
    · exact List.all_eq_true.mp hscope c hc
    · exact hname name c hc

theorem plain_cut_title (i : Item) {cut : List Char} (hcut : cut <+: i.title) : Plain fileAlphabet 0 cut := by
  obtain ⟨more, hmore⟩ := hcut
  have hmem : ∀ c ∈ cut, weight c = 0 ∧ c ≠ '/' := by
    intro c hc
    apply i.light_title
    rw [← hmore]
    exact List.mem_append_left more hc
  have hplain : Plain fileAlphabet 0 (cut ++ more) := by
    have htitle := i.plain_title .nil
    rwa [List.append_nil, ← hmore] at htitle
  obtain ⟨m, hm⟩ := hplain.of_append (.inr fun hslash => (hmem _ hslash).2 rfl)
  have hzero : m = 0 := hm.eq_zero fun c hc => (hmem c hc).1
  rwa [hzero] at hm

theorem plain_open (h : Plain fileAlphabet n rest) : Plain fileAlphabet (1 + n) ('\x7b' :: rest) := by
  have hmem : '\x7b' ∈ fileAlphabet.marks := by simp [fileAlphabet]
  exact .mark hmem h

theorem plain_close (h : Plain fileAlphabet n rest) : Plain fileAlphabet (-1 + n) ('\x7d' :: rest) := by
  have hmem : '\x7d' ∈ fileAlphabet.marks := by simp [fileAlphabet]
  exact .mark hmem h

/-- An item is balanced if what is between its braces is. -/
theorem plain_braced (i : Item) (h : Plain fileAlphabet n rest)
    (hinside : ∀ {m : Int} {text : List Char}, Plain fileAlphabet m text → Plain fileAlphabet m (i.inside ++ text)) :
    Plain fileAlphabet n (i.chars ++ rest) := by
  have hbraced := i.plain_title (plain_open (hinside (plain_close (.blank (.inr rfl) h))))
  have hzero : 1 + (-1 + n) = n := by omega
  rw [hzero] at hbraced
  rw [chars_eq_braced]
  simpa using hbraced

end Item

theorem methodical_fileAlphabet : Methodical fileAlphabet := bodyAlphabet.marks_subset

mutual

theorem Item.plain_inside : (i : Item) → ∀ {n : Int} {rest : List Char}, Plain fileAlphabet n rest →
    Plain fileAlphabet n (i.inside ++ rest)
  | .declaration _ _ ms, _, _, h => .blank (.inr rfl) (plain_methods ms methodical_fileAlphabet h)
  | .scope _ items, _, _, h => .blank (.inr rfl) (plain_itemChars items h)

/-- The text of a forest opens and closes the same braces. -/
theorem plain_itemChars : (is : List Item) → ∀ {n : Int} {rest : List Char}, Plain fileAlphabet n rest →
    Plain fileAlphabet n (itemChars is ++ rest)
  | [], _, _, h => h
  | i :: is, _, rest, h => by
    rw [itemChars, List.append_assoc]
    exact i.plain_braced (plain_itemChars is h) i.plain_inside

end

theorem Unclosed.cons {text : List Char} (h : Unclosed text) (i : Item) : Unclosed (i.chars ++ text) := by
  have hcons (front : List Item) (rest : List Char) :
      i.chars ++ (itemChars front ++ rest) = itemChars (i :: front) ++ rest := by
    rw [itemChars, List.append_assoc]
  cases h with
  | declaration front kind name hrest =>
    rw [hcons]
    exact .declaration (i :: front) kind name hrest
  | scope front name h =>
    rw [hcons]
    exact .scope (i :: front) name h

/-- The text is not closed, or it opens at least `k` braces more than it closes. -/
def Opens (k : Int) (text : List Char) : Prop :=
  Unclosed text ∨ ∃ m, k ≤ m ∧ Plain fileAlphabet m text

theorem cut_append {cut xs ys : List Char} (h : cut <+: xs ++ ys) :
    cut <+: xs ∨ ∃ more, cut = xs ++ more ∧ more <+: ys := by
  obtain ⟨tail, htail⟩ := h
  rcases List.append_eq_append_iff.mp htail with ⟨v, rfl, -⟩ | ⟨v, rfl, rfl⟩
  · exact .inl (List.prefix_append cut v)
  · exact .inr ⟨v, rfl, List.prefix_append v tail⟩

theorem Opens.of_one {text : List Char} (h : Opens 1 text) : Opens 0 text := by
  rcases h with h | ⟨m, hm, h⟩
  · exact .inl h
  · exact .inr ⟨m, by omega, h⟩

/-- A cut somewhere in an item, if the cuts between its braces are known. -/
theorem opens_chars (i : Item)
    (hinside : ∀ {cut : List Char}, cut <+: i.inside → Opens 1 (i.title ++ '\x7b' :: cut))
    {cut : List Char} (hcut : cut <+: i.chars) : Opens 0 cut := by
  rw [i.chars_eq_braced] at hcut
  rcases cut_append hcut with htitle | ⟨behind, rfl, hbehind⟩
  · exact .inr ⟨0, Int.le_refl 0, i.plain_cut_title htitle⟩
  cases behind with
  | nil =>
    rw [List.append_nil]
    exact .inr ⟨0, Int.le_refl 0, i.plain_cut_title List.prefix_rfl⟩
  | cons c behind =>
    obtain ⟨rfl, hbraced⟩ := List.cons_prefix_cons.mp hbehind
    rcases cut_append hbraced with hbetween | ⟨last, rfl, hlast⟩
    · exact (hinside hbetween).of_one
    cases last with
    | nil =>
      rw [List.append_nil]
      exact (hinside List.prefix_rfl).of_one
    | cons x last =>
      -- the closing brace is there, and at most the end of its line is missing
      obtain ⟨rfl, hline⟩ := List.cons_prefix_cons.mp hlast
      have hplain : Plain fileAlphabet 0 last := by
        cases last with
        | nil => exact .nil
        | cons y last =>
          obtain ⟨rfl, hnil⟩ := List.cons_prefix_cons.mp hline
          rw [List.prefix_nil.mp hnil]
          exact .blank (.inr rfl) .nil
      exact .inr ⟨0, Int.le_refl 0, i.plain_title (Item.plain_open (i.plain_inside (Item.plain_close hplain)))⟩

mutual

/-- A text that ends between the braces of an item leaves one of them open. -/
theorem opens_inside : (i : Item) → (front : List Item) → ∀ {cut : List Char}, cut <+: i.inside →
    Opens 1 (itemChars front ++ (i.title ++ '\x7b' :: cut))
  | .declaration kind name ms, front, cut, hcut => by
    -- what a body starts with is the text of a body, also if it ends in a comment
    obtain ⟨more, hmore⟩ := hcut
    have hmethods : Plain bodyAlphabet 0 ('\n' :: (ms.flatMap Method.chars ++ [])) :=
      .blank (.inr rfl) (plain_methods ms (List.Subset.refl _) .nil)
    have hbody : Plain bodyAlphabet 0 (cut ++ more) := by
      rwa [List.append_nil, ← Item.inside.eq_1 kind name ms, ← hmore] at hmethods
    obtain ⟨m, hm⟩ := hbody.of_append (.inl rfl)
    rw [Item.declaration_title]
    exact .inl (.declaration front kind name hm)
  | .scope name items, front, cut, hcut => by
    have htitle {m : Int} {text : List Char} (h : Plain fileAlphabet m text) :
        Plain fileAlphabet (1 + m) (itemChars front ++ ((Item.scope name items).title ++ '\x7b' :: text)) :=
      plain_itemChars front (Item.plain_title _ (Item.plain_open h))
    cases cut with
    | nil => exact .inr ⟨1, Int.le_refl 1, htitle .nil⟩
    | cons c cut =>
      obtain ⟨rfl, hitems⟩ := List.cons_prefix_cons.mp hcut
      rcases opens_items items hitems with hunclosed | ⟨m, hm, hplain⟩
      · rw [Item.scope_title]
        exact .inl (.scope front name hunclosed)
      · exact .inr ⟨1 + m, by omega, htitle (.blank (.inr rfl) hplain)⟩

/-- A text that ends between items closes no brace that it does not open. -/
theorem opens_items : (is : List Item) → ∀ {cut : List Char}, cut <+: itemChars is → Opens 0 cut
  | [], cut, hcut => by
    rw [itemChars, List.prefix_nil] at hcut
    rw [hcut]
    exact .inr ⟨0, Int.le_refl 0, .nil⟩
  | i :: is, cut, hcut => by
    rw [itemChars] at hcut
    rcases cut_append hcut with hfirst | ⟨more, rfl, hmore⟩
    · exact opens_chars i (opens_inside i []) hfirst
    rcases opens_items is hmore with hunclosed | ⟨m, hm, hplain⟩
    · exact .inl (hunclosed.cons i)
    · exact .inr ⟨m, hm, i.plain_braced hplain i.plain_inside⟩

end

/-- An item of the forest, at any depth, opens its brace where `before` ends and closes it behind `inside`. -/
inductive Encloses : List Item → (before inside : List Char) → Prop
  | here (front : List Item) (i : Item) (back : List Item) :
      Encloses (front ++ i :: back) (itemChars front ++ (i.title ++ ['\x7b'])) i.inside
  | within (front : List Item) (name : Name) (items back : List Item) {before inside : List Char}
      (h : Encloses items before inside) :
      Encloses (front ++ .scope name items :: back)
        (itemChars front ++ ((Item.scope name items).title ++ '\x7b' :: '\n' :: before)) inside

theorem itemChars_append (is js : List Item) : itemChars (is ++ js) = itemChars is ++ itemChars js := by
  induction is with
  | nil => rfl
  | cons i is ih => rw [List.cons_append, itemChars, itemChars, ih, List.append_assoc]

/-- The text of the forest has the braces where they are said to be. -/
theorem Encloses.itemChars_eq {items : List Item} {before inside : List Char} (h : Encloses items before inside) :
    ∃ after, itemChars items = before ++ (inside ++ '\x7d' :: after) := by
  induction h with
  | here front i back =>
    refine ⟨'\n' :: itemChars back, ?_⟩
    rw [itemChars_append, itemChars, i.chars_eq_braced]
    simp
  | within front name items back h ih =>
    obtain ⟨after, hafter⟩ := ih
    refine ⟨after ++ '\x7d' :: '\n' :: itemChars back, ?_⟩
    rw [itemChars_append, itemChars, Item.chars_eq_braced, Item.inside, hafter]
    simp

/-- A text that ends between the braces of an item leaves a brace open. -/
theorem Encloses.opens {items : List Item} {before inside cut : List Char} (h : Encloses items before inside)
    (hcut : cut <+: inside) : Opens 1 (before ++ cut) := by
  cases h with
  | here front i back => simpa using opens_inside i front hcut
  | @within front name items back before _ h =>
    -- a cut in an inner item is one in the namespace around it
    obtain ⟨after, hafter⟩ := h.itemChars_eq
    have hinner : before ++ cut <+: itemChars items := by
      rw [hafter]
      exact (List.prefix_append_right_inj before).mpr (hcut.trans (List.prefix_append inside _))
    have hscope : '\n' :: (before ++ cut) <+: (Item.scope name items).inside :=
      List.cons_prefix_cons.mpr ⟨rfl, hinner⟩
    simpa using opens_inside (.scope name items) front hscope

/-- A file in which a brace is open is not read. -/
theorem Opens.not_accepted {d : Dialect} {source : List Char} (h : Opens 1 source) (ts : List Grammar.Tree)
    (c : Cursor) (r : Reach) : readFile d source ≠ .accepted ts c r := by
  intro hread
  rcases h with hunclosed | ⟨m, hm, hplain⟩
  · obtain ⟨r, hrefused⟩ := readFile_of_refuses (hunclosed.refuses_program (d := d))
    simp [hread] at hrefused
  · have hbalanced := readFile_balanced hread hplain
    omega

theorem extract_eq_error {d : Dialect} {source : List Char} (h : ∀ ts c r, readFile d source ≠ .accepted ts c r)
    (s : Selection) : ∃ f, extract d source s = .error f ∧ f.dialect = d := by
  cases hread : readFile d source with
  | accepted ts c r => exact absurd hread (h ts c r)
  | refused r => exact ⟨_, by rw [extract, Outline.read, hread]; rfl, rfl⟩
  | exhausted => exact ⟨_, by rw [extract, Outline.read, hread]; rfl, rfl⟩

theorem extract_eq_ok_of_written (d : Dialect) (items : List Item) (s : Selection) :
    ∃ ms, extract d (itemChars items) s = .ok ms := by
  obtain ⟨ts, c, htakes, -⟩ := takes_program (d := d) items
  obtain ⟨r, hread⟩ := readFile_of_takes htakes
  exact ⟨_, by rw [extract, Outline.read, hread]; rfl⟩

/-- Nothing is extracted from a written text that is cut off between the braces of a class, an interface or a
namespace, wherever the cut is: while the whole text is read, looking for any methods in the cut one fails with a fault
of the dialect. -/
theorem extract_truncated (d : Dialect) {items : List Item} {before inside cut : List Char}
    (h : Encloses items before inside) (hcut : cut <+: inside) (s : Selection) :
    (∃ after, itemChars items = before ++ (inside ++ '\x7d' :: after)) ∧
      (∃ ms, extract d (itemChars items) s = .ok ms) ∧
      ∃ f, extract d (before ++ cut) s = .error f ∧ f.dialect = d := by
  refine ⟨h.itemChars_eq, extract_eq_ok_of_written d items s, extract_eq_error ?_ s⟩
  intro ts c r
  exact (h.opens hcut).not_accepted ts c r

/-- A cut inside a comment, behind a brace that the comment has. -/
theorem extract_truncated_comment : ∃ items before inside,
    Encloses items before inside ∧ "\n/*\x7d".toList <+: inside ∧
      before ++ "\n/*\x7d".toList = "namespace N \x7b\ninterface A \x7b\n/*\x7d".toList ∧
      ∃ f, extract .tsx (before ++ "\n/*\x7d".toList) ⟨"A", ⟨none, []⟩⟩ = .error f ∧ f.dialect = .tsx :=
  let letter (c : Char) (h : c.isUpper = true) : Name := ⟨c, [], h, by simp⟩
  let method : Method := ⟨some ⟨['\x7d', '!'], by decide, by decide⟩, letter 'M' rfl, [], letter 'R' rfl⟩
  have hinner : Encloses [.declaration .interfaceKind (letter 'A' rfl) [method]] _ _ := .here [] _ []
  have houter : Encloses [.scope (letter 'N' rfl) _] _ _ := .within [] (letter 'N' rfl) _ [] hinner
  have hcut : "\n/*\x7d".toList <+: '\n' :: [method].flatMap Method.chars := ⟨"!*/\nM(): R;\n".toList, rfl⟩
  ⟨_, _, _, houter, hcut, rfl, (extract_truncated .tsx houter hcut _).2.2⟩

end SignatureDocs.Written
