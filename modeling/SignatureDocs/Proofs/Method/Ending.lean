import SignatureDocs.Proofs.Grammar.Priority
import SignatureDocs.Proofs.Method.Leading

/-!
Where a method ends. A method without a body ends with its signature. One with a body ends with the brace that closes
it, but takes in the comments behind the brace if the line ends after them.
-/
namespace SignatureDocs

open SignatureDocs.Text SignatureDocs.Grammar Reader

variable {source : List Char}

namespace Grammar

/-- The blanks at the start of a text, and what follows them. -/
def blanksBefore (cs : List Char) : List Piece × List Char :=
  match run1 isSourceBlank cs with
  | some (x, rest) => ([.blanks x], rest)
  | none => ([], cs)

/-- The comments up to the end of the line and what follows them, if nothing else stands there. The first list bounds
their number. -/
def trailing? : List Char → List Char → Option (List Piece × List Char)
  | [], cs => if endsHere false cs then some ([], cs) else none
  | _ :: budget, cs =>
    if endsHere false cs then some ([], cs)
    else (comment (blanksBefore cs).2).bind fun q =>
      (trailing? budget q.2).map fun r => ((blanksBefore cs).1 ++ .remark q.1 :: r.1, r.2)

/-- The comments that a method with a body takes in, of the text behind its brace. -/
def trailing (cs : List Char) : List Piece := ((trailing? cs cs).map Prod.fst).getD []

theorem blanksBefore_append (cs : List Char) : gapText (blanksBefore cs).1 ++ (blanksBefore cs).2 = cs := by
  unfold blanksBefore
  cases hrun : run1 isSourceBlank cs with
  | none => rfl
  | some q => simpa [Piece.text] using (run1_eq_some hrun).1.symm

theorem skip?_blanksBefore (cs : List Char) (offset : Nat) :
    ((⟨cs, offset⟩ : Located).skip? (run1 isSourceBlank)).getD ⟨cs, offset⟩ =
      ⟨(blanksBefore cs).2, offset + byteLength (gapText (blanksBefore cs).1)⟩ := by
  unfold blanksBefore Located.skip?
  cases hrun : run1 isSourceBlank cs with
  | none => rfl
  | some q => simp [Piece.text]

/-- Skipping comments to the end of the line is cutting them off. -/
theorem lineEnd?_eq_trailing? (budget cs : List Char) (offset : Nat) :
    Located.lineEnd? false budget ⟨cs, offset⟩ =
      (trailing? budget cs).map fun q => ⟨q.2, offset + byteLength (gapText q.1)⟩ := by
  induction budget generalizing cs offset with
  | nil =>
    unfold Located.lineEnd? trailing?
    split <;> rfl
  | cons b budget ih =>
    unfold Located.lineEnd? trailing?
    split
    · rfl
    · dsimp only
      rw [skip?_blanksBefore, Located.skip?]
      cases comment (blanksBefore cs).2 with
      | none => rfl
      | some q =>
        simp only [Option.map_some, Option.bind_some, ih, Option.map_map]
        congr 1
        funext r
        simp [gapText, Piece.text, Nat.add_assoc]

/-- The comments are at the start of the text, and the last of them ends what is cut off. -/
theorem trailing?_eq_some {budget cs rest : List Char} {gap : List Piece}
    (h : trailing? budget cs = some (gap, rest)) : cs = gapText gap ++ rest ∧
      (gap = [] ∨ ∃ front x, gap = front ++ [.remark x] ∧ x.head? = some '/') := by
  induction budget generalizing cs rest gap with
  | nil =>
    unfold trailing? at h
    split at h
    · obtain ⟨rfl, rfl⟩ := Prod.mk.inj (Option.some.inj h)
      exact ⟨rfl, Or.inl rfl⟩
    · cases h
  | cons b budget ih =>
    unfold trailing? at h
    split at h
    · obtain ⟨rfl, rfl⟩ := Prod.mk.inj (Option.some.inj h)
      exact ⟨rfl, Or.inl rfl⟩
    · obtain ⟨⟨x, mid⟩, hcomment, hrest⟩ := Option.bind_eq_some_iff.1 h
      obtain ⟨⟨gap', rest'⟩, htail, heq⟩ := Option.map_eq_some_iff.1 hrest
      obtain ⟨rfl, rfl⟩ := Prod.mk.inj heq
      obtain ⟨hmid, hlast⟩ := ih htail
      have hslash : x.head? = some '/' := by
        rcases comment_eq_some hcomment with ⟨z, rfl, -⟩ | ⟨z, rfl, -⟩ <;> rfl
      have htext : (blanksBefore cs).2 = x ++ mid := Splits.eq_append hcomment
      refine ⟨?_, Or.inr ?_⟩
      · calc cs = gapText (blanksBefore cs).1 ++ (x ++ mid) := by rw [← htext, blanksBefore_append]
          _ = gapText (blanksBefore cs).1 ++ (x ++ (gapText gap' ++ rest')) := by rw [← hmid]
          _ = _ := by simp [gapText, Piece.text]
      · rcases hlast with rfl | ⟨front, y, rfl, hy⟩
        · exact ⟨_, x, rfl, hslash⟩
        · exact ⟨(blanksBefore cs).1 ++ .remark x :: front, y, by simp, hy⟩

theorem trailing_append (cs : List Char) : ∃ rest, cs = gapText (trailing cs) ++ rest := by
  unfold trailing
  cases h : trailing? cs cs with
  | none => exact ⟨cs, rfl⟩
  | some q => exact ⟨q.2, (trailing?_eq_some h).1⟩

/-- What is taken in ends with a comment. -/
theorem trailing_eq_nil_or (cs : List Char) :
    trailing cs = [] ∨ ∃ front x, trailing cs = front ++ [.remark x] ∧ x.head? = some '/' := by
  unfold trailing
  cases h : trailing? cs cs with
  | none => exact Or.inl rfl
  | some q => exact (trailing?_eq_some h).2

/-- All rules that make a method. One of a class may have a body, and with decorators it has one. -/
def methodForms : List Form :=
  [interfaceMethod, abstractSignature, .both classMethodHead methodBody,
    .both classMethodHead (.any [methodBody, .ahead (memberEnd false)])]

theorem rules_methods (d : Dialect) (p : Phrase) :
    ∀ q ∈ (rules d p).parts, q.1 = .member .method → q.2 ∈ methodForms := by
  cases d <;> cases p with
  | typeExpr line | typeOperand line | typeElement line | callSignature line | block line =>
    cases line <;> decide +kernel
  | expression s | operand s | unary s | atom s | suffix s | expressions s =>
    obtain ⟨line, typed, head⟩ := s
    cases line <;> cases typed <;> cases head <;> decide +kernel
  | _ => decide +kernel

/-- Braces end with a brace. -/
theorem Rule.Reads.braced_last {d : Dialect} {c c' : Cursor} {ts : List Tree} (hc : c.On source)
    (h : braced.Reads (rules d) c ts c') : ∃ a after, c.next.offset ≤ a ∧
      dropBytes? source a = some ('\x7d' :: after) ∧ c'.last = ⟨after, a + 1⟩ := by
  obtain ⟨us, c₁, vs, hopen, htail, -⟩ := h.of_both
  obtain ⟨us', c₂, vs', hmany, hclose, -⟩ := htail.of_both
  have hc₁ := hopen.on hc
  have hc₂ := hmany.on hc₁
  obtain ⟨x, after, hx, rfl⟩ := Cursor.read?_eq_some hclose.of_token.2
  obtain ⟨rfl, hsplit⟩ := exactly_eq_some (Option.filter_eq_some_iff.1 hx).1
  refine ⟨c₂.next.offset, after, ?_, by rw [hc₂.next.1, hsplit]; rfl, rfl⟩
  calc c.next.offset ≤ c₁.last.offset := (hc.read hopen.of_token.2).2
    _ ≤ c₂.last.offset := hmany.le hc₁
    _ ≤ c₂.next.offset := hc₂.next.2

/-- The end of a block takes in the comments up to the end of the line. -/
theorem Rule.Reads.closing_last {d : Dialect} {c c' : Cursor} {ts : List Tree}
    (h : (closing false).Reads (rules d) c ts c') : ts = [] ∧
      c'.last.offset = c.last.offset + byteLength (gapText (trailing c.last.text)) := by
  have hline : c.lineEnd? false = (trailing? c.last.text c.last.text).map fun q =>
      ⟨q.2, c.last.offset + byteLength (gapText q.1)⟩ := lineEnd?_eq_trailing? _ _ _
  unfold trailing
  rcases h.of_either with hend | ⟨hno, hsame⟩
  · obtain ⟨rfl, hread⟩ := hend.of_token
    obtain ⟨l, hl, rfl⟩ := Option.map_eq_some_iff.1 hread
    rw [hline] at hl
    obtain ⟨q, hq, rfl⟩ := Option.map_eq_some_iff.1 hl
    rw [hq]
    exact ⟨rfl, rfl⟩
  · obtain ⟨rfl, rfl, -⟩ := hsame.of_absent
    have hnone : trailing? c'.last.text c'.last.text = none := by
      rw [← Option.map_eq_none_iff, ← hline, ← Option.map_eq_none_iff]
      exact hno.of_token
    rw [hnone]
    exact ⟨rfl, rfl⟩

/-- A block is braces and then the comments up to the end of the line. -/
theorem Rule.Reads.of_block {d : Dialect} {c c' : Cursor} {ts : List Tree}
    (h : (Rule.phrase (.block false)).Reads (rules d) c ts c') : ∃ c₁, braced.Reads (rules d) c ts c₁ ∧
      c'.last.offset = c₁.last.offset + byteLength (gapText (trailing c₁.last.text)) := by
  obtain ⟨us, c₁, vs, hbraced, hend, rfl⟩ := h.of_phrase.of_both
  obtain ⟨rfl, hlast⟩ := hend.closing_last
  rw [List.append_nil]
  exact ⟨c₁, hbraced, hlast⟩

theorem Rule.Reads.classMethodHead_begins {d : Dialect} {c c' : Cursor} {ts : List Tree} (hc : c.On source)
    (h : classMethodHead.Reads (rules d) c ts c') : c.next.offset < c'.last.offset := by
  have hfit : classMethodHead.fit profile = true := by decide +kernel
  have hfirm : classMethodHead.firm = true := by decide +kernel
  exact ((h.accepts.reading (profile_holds d) hfit hc).firm hfirm).1.1

/-- A method with a body: a head, and then statements between braces. The text from `start` on has `front` up to the
brace that closes the body, and `after` behind it. -/
structure Tree.Bodied (d : Dialect) (source : List Char) (own : Tree) (start : Nat) (front after : List Char) :
    Prop where
  parts : ∃ c₀ c₁ c₂ us vs, c₀.On source ∧ classMethodHead.Reads (rules d) c₀ us c₁ ∧
    braced.Reads (rules d) c₁ vs c₂ ∧ own.children = us ++ vs ∧ own.span.start = c₀.next.offset ∧
    c₂.last = ⟨after, start + byteLength (front ++ ['\x7d'])⟩
  text : dropBytes? source start = some (front ++ '\x7d' :: after)

/-- A method without a body: one of an interface, an abstract one, or one of a class that no body follows. -/
def Tree.Bodiless (d : Dialect) (source : List Char) (own : Tree) : Prop :=
  ∃ c₀ c₁, c₀.On source ∧ own.span = ⟨c₀.next.offset, c₁.last.offset⟩ ∧
    (interfaceMethod.Reads (rules d) c₀ own.children c₁ ∨ abstractSignature.Reads (rules d) c₀ own.children c₁ ∨
      classMethodHead.Reads (rules d) c₀ own.children c₁ ∧ Refuses (rules d) methodBody c₁)

/-- A method that has a body ends behind it and the comments up to the end of the line. -/
theorem Rule.Reads.bodied {d : Dialect} {c c' : Cursor} {own : Tree} (hc : c.On source)
    (h : (Rule.both classMethodHead methodBody).Reads (rules d) c own.children c')
    (hspan : own.span = ⟨c.next.offset, c'.last.offset⟩) {start : Nat} (hstart : start ≤ own.span.start)
    (htext : (dropBytes? source start).isSome) : ∃ front after, own.Bodied d source start front after ∧
      own.span.stop = start + byteLength (front ++ '\x7d' :: gapText (trailing after)) := by
  obtain ⟨us, c₁, vs, hhead, hbody, hchildren⟩ := h.of_both
  obtain ⟨ws, c₂, xs, hblock, habsent, rfl⟩ := hbody.of_both
  obtain ⟨rfl, rfl, -⟩ := habsent.of_absent
  rw [List.append_nil] at hchildren
  obtain ⟨c₃, hbraced, hlast⟩ := hblock.of_block
  have hc₁ := hhead.on hc
  obtain ⟨a, after, hle, ha, hclose⟩ := hbraced.braced_last hc₁
  obtain ⟨text, htext⟩ := Option.isSome_iff_exists.1 htext
  have hstart' : start ≤ a := calc
    start ≤ c.next.offset := by rwa [hspan] at hstart
    _ ≤ c₁.last.offset := (hhead.classMethodHead_begins hc).le
    _ ≤ c₁.next.offset := hc₁.next.2
    _ ≤ a := hle
  obtain ⟨front, rfl, hlength⟩ := dropBytes?_between htext ha hstart'
  have hbrace : byteLength (front ++ ['\x7d']) = a - start + 1 := by
    rw [byteLength_append, hlength]
    rfl
  refine ⟨front, after, ⟨⟨c, c₁, c₃, us, ws, hc, hhead, hbraced, hchildren, by rw [hspan], ?_⟩, htext⟩, ?_⟩
  · rw [hclose, hbrace]
    congr 1
    omega
  · rw [hspan, ← List.singleton_append, ← List.append_assoc, byteLength_append, hbrace]
    dsimp only
    rw [hlast, hclose]
    dsimp only
    omega

/-- Every part that is a method has a body or has none. -/
theorem bodied_or_bodiless {d : Dialect} {ts : List Tree} {c' : Cursor} {r : Reach}
    (h : readFile d source = .accepted ts c' r) {own : Tree} (hown : own ∈ Tree.preorderAll ts)
    (hpart : own.part = .member .method) {start : Nat} (hstart : start ≤ own.span.start)
    (htext : (dropBytes? source start).isSome) : own.Bodiless d source ∨ ∃ front after,
      own.Bodied d source start front after ∧
      own.span.stop = start + byteLength (front ++ '\x7d' :: gapText (trailing after)) := by
  have hprogram : ∀ q ∈ program.parts, q.1 = .member .method → q.2 ∈ methodForms := by decide +kernel
  obtain ⟨a, c, c₁, hform, hc, hreads, hspan⟩ := (Rule.reads_of_read _ h).parts
    (fun part a => part = .member .method → a ∈ methodForms) (rules_methods d) hprogram (Cursor.On.start source)
    own hown
  have hmem := hform hpart
  simp only [methodForms, List.mem_cons, List.not_mem_nil, or_false] at hmem
  rcases hmem with rfl | rfl | rfl | rfl
  · exact Or.inl ⟨c, c₁, hc, hspan, Or.inl hreads⟩
  · exact Or.inl ⟨c, c₁, hc, hspan, Or.inr (Or.inl hreads)⟩
  · exact Or.inr (hreads.bodied hc hspan hstart htext)
  · obtain ⟨us, c₂, vs, hhead, htail, hchildren⟩ := hreads.of_both
    rcases htail.of_either with hbody | ⟨hno, hahead⟩
    · refine Or.inr (Rule.Reads.bodied hc ?_ hspan hstart htext)
      rw [hchildren]
      exact .both hhead hbody
    · obtain ⟨rfl, rfl⟩ := hahead.of_ahead
      rw [List.append_nil] at hchildren
      exact Or.inl ⟨c, c₁, hc, hspan, Or.inr (Or.inr ⟨hchildren ▸ hhead, hno⟩)⟩

end Grammar

/-- A member has a part of its own in a body, with its decorators before it and a separator behind it. -/
structure Member.Owned (source : List Char) (owner : DeclarationKind) (own : Tree) (m : Member) : Prop where
  kind : ∃ form, own.part = .member form ∧ m.kind = memberKind owner form m.name own.children
  start_le : m.span.start ≤ own.span.start
  stop_eq : m.span.stop = separatorEnd source own.span.stop

theorem membersFrom_owned {owner : DeclarationKind} {lo hi : Nat} {ts : List Tree} {st : BodyState}
    (hforest : Forest source lo hi ts) (hst : ∀ k ∈ st.decorated, k ≤ lo) :
    ∀ m ∈ membersFrom source owner st ts, ∃ own ∈ ts, m.Owned source owner own := by
  induction ts generalizing lo st with
  | nil => simp [membersFrom]
  | cons t ts ih =>
    obtain ⟨hlo, hsound, hrest⟩ := hforest
    have hlt := hsound.fits.nonempty
    have hdecorated : st.decorated.getD t.span.start ≤ t.span.start := by
      cases hd : st.decorated with
      | none => exact le_rfl
      | some k => exact (hst k hd).trans hlo
    -- a member of the parts behind this one has its own part there
    have hlater (st' : BodyState) (hst' : ∀ k ∈ st'.decorated, k ≤ t.span.stop) {m : Member}
        (hm : m ∈ membersFrom source owner st' ts) : ∃ own ∈ t :: ts, m.Owned source owner own := by
      obtain ⟨own, hown, howned⟩ := ih hrest hst' m hm
      exact ⟨own, List.mem_cons_of_mem t hown, howned⟩
    have hkept : ∀ k ∈ st.decorated, k ≤ t.span.stop := fun k hk => (hst k hk).trans (hlo.trans hlt.le)
    obtain ⟨part, span, children⟩ := t
    intro m hm
    cases part with
    | separator => exact hlater { st with cursor := span.stop } hkept hm
    | decorator =>
      refine hlater { st with decorated := some (st.decorated.getD span.start) } ?_ hm
      rintro k ⟨rfl⟩
      exact hdecorated.trans hlt.le
    | member form =>
      rcases List.mem_cons.1 hm with rfl | hm
      · exact ⟨_, List.mem_cons_self, ⟨form, rfl, rfl⟩, hdecorated, rfl⟩
      · exact hlater _ (by simp) hm
    | _ => exact hlater _ hkept hm

/-- Every member of a declaration has its own part in the body. -/
theorem declaration?_owned {t : Tree} (ht : t.Sound source) {row : Declaration}
    (h : declaration? source t = some row) : ∃ body, childPart? .body t.children = some body ∧
      ∀ m ∈ row.members, (dropBytes? source m.span.start).isSome ∧
        ∃ own ∈ body.children, m.Owned source row.kind own := by
  obtain ⟨body, hbody, -, hplaced⟩ := declaration?_placed ht h
  have hsound : body.Sound source := (ht.forest.mem (List.mem_of_find?_eq_some hbody)).1
  refine ⟨body, hbody, fun m hm => ⟨(hplaced.mem hm).1.start_isSome, ?_⟩⟩
  unfold declaration? at h
  split at h
  · next kind span children =>
    obtain ⟨name, -, rfl⟩ := Option.map_eq_some_iff.1 h
    have hbody' : childPart? .body children = some body := hbody
    simp only [membersOf, hbody'] at hm
    exact membersFrom_owned hsound.forest (by simp) m hm
  · cases h

theorem memberKind_eq_method {owner : DeclarationKind} {form : MemberForm} {name : Option String}
    {children : List Tree} (h : memberKind owner form name children = .method) : form = .method := by
  cases form with
  | method => rfl
  | _ => cases h

/-- What may stand behind a member: nothing, or spaces and tabs and then a semicolon or a comma. -/
def IsSeparator (sep : List Char) : Prop :=
  sep = [] ∨ ∃ gap x, sep = gap ++ [x] ∧ (∀ c ∈ gap, c = ' ' ∨ c = '\t') ∧ (x = ';' ∨ x = ',')

theorem IsSeparator.slash_not_mem {sep : List Char} (h : IsSeparator sep) : '/' ∉ sep := by
  rcases h with rfl | ⟨gap, x, rfl, hgap, hx⟩
  · simp
  · intro hmem
    rcases List.mem_append.1 hmem with hmem | hmem
    · rcases hgap _ hmem with h | h <;> exact absurd h (by decide)
    · obtain rfl := List.mem_singleton.1 hmem
      rcases hx with h | h <;> exact absurd h (by decide)

/-- The text of a member is that of its own part and a separator. -/
theorem slice_separatorEnd {start : Nat} {text rest : List Char} (h : dropBytes? source start = some (text ++ rest)) :
    ∃ sep, IsSeparator sep ∧
      slice source ⟨start, separatorEnd source (start + byteLength text)⟩ = text ++ sep := by
  rcases separatorEnd_cases (dropBytes?_add h) with heq | ⟨gap, x, tail, rfl, hgap, hx, heq⟩
  · refine ⟨[], Or.inl rfl, ?_⟩
    rw [heq, slice, slice?_eq_some h, Option.getD_some, List.append_nil]
  · refine ⟨gap ++ [x], Or.inr ⟨gap, x, rfl, hgap, hx⟩, ?_⟩
    have h' : dropBytes? source start = some ((text ++ (gap ++ [x])) ++ tail) := by
      rw [h]
      simp
    rw [heq, Nat.add_assoc, ← byteLength_append, slice, slice?_eq_some h', Option.getD_some]

/-- A method ends with its own syntax exactly if it takes in no comment. -/
theorem ends_properly_iff {x : Method} {front after sep : List Char} (hsep : IsSeparator sep)
    (hx : x.signature = String.ofList (front ++ '\x7d' :: (gapText (trailing after) ++ sep))) :
    (∃ sep', IsSeparator sep' ∧ x.signature = String.ofList (front ++ '\x7d' :: sep')) ↔ trailing after = [] := by
  constructor
  · rintro ⟨sep', hsep', heq⟩
    rcases trailing_eq_nil_or after with hnil | ⟨gap, y, hgap, hy⟩
    · exact hnil
    · -- a comment would put a slash into the separator
      exfalso
      have htext : gapText (trailing after) ++ sep = sep' := by
        rw [hx, String.ofList_inj] at heq
        exact (List.cons.inj (List.append_cancel_left heq)).2
      have hslash : '/' ∈ y := List.mem_of_mem_head? hy
      refine hsep'.slash_not_mem ?_
      rw [← htext, hgap]
      simp [gapText, Piece.text, hslash]
  · intro hnil
    rw [hnil] at hx
    exact ⟨sep, hsep, hx⟩

/-- Every method of a file that can be read has no body, or its text goes up to the brace that closes the body, then
over the comments behind the brace if the line ends after them, and then over a separator. So it ends with its own
syntax exactly if no such comments are there. -/
theorem extract_endings {d : Dialect} {source : List Char} {s : Selection} {ms : List Method}
    (h : extract d source s = .ok ms) : ∃ ts c r, readFile d source = .accepted ts c r ∧ ∀ x ∈ ms,
      ∃ t ∈ Tree.preorderAll ts, ∃ row body m name, declaration? source t = some row ∧
        childPart? .body t.children = some body ∧ m ∈ row.members ∧ x = m.method source row.name name ∧
        ∃ own ∈ body.children, own.part = .member .method ∧ m.Owned source row.kind own ∧
          (own.Bodiless d source ∨ ∃ front after sep, own.Bodied d source m.span.start front after ∧
            IsSeparator sep ∧ x.signature = String.ofList (front ++ '\x7d' :: (gapText (trailing after) ++ sep)) ∧
            ((∃ sep', IsSeparator sep' ∧ x.signature = String.ofList (front ++ '\x7d' :: sep')) ↔
              trailing after = []) ∧
            (trailing after = [] ∨ ∃ gap y, trailing after = gap ++ [.remark y])) := by
  obtain ⟨ts, c, r, hfile, hforest, rfl⟩ := extract_eq_ok h
  refine ⟨ts, c, r, hfile, fun x hx => ?_⟩
  obtain ⟨row, hrow, hx⟩ := List.mem_flatMap.1 hx
  obtain ⟨-, m, hm, hkind, name, rfl⟩ := Declaration.mem_methods hx
  obtain ⟨t, ht, hdecl⟩ := Outline.mem_declarations hforest hrow
  obtain ⟨body, hbody, hmembers⟩ := declaration?_owned (sound_of_mem_preorderAll hforest t ht) hdecl
  obtain ⟨hstart, own, hown, howned⟩ := hmembers m hm
  obtain ⟨form, hpart, hform⟩ := howned.kind
  obtain rfl := memberKind_eq_method (hform.symm.trans hkind)
  have hmem := mem_preorderAll_child (mem_preorderAll_child ht (List.mem_of_find?_eq_some hbody)) hown
  refine ⟨t, ht, row.bare, body, m, name, hdecl, hbody, hm, rfl, own, hown, hpart, howned, ?_⟩
  rcases bodied_or_bodiless hfile hmem hpart howned.start_le hstart with hbodiless | ⟨front, after, hbodied, hstop⟩
  · exact Or.inl hbodiless
  · obtain ⟨rest, hrest⟩ := trailing_append after
    have htext : dropBytes? source m.span.start = some ((front ++ '\x7d' :: gapText (trailing after)) ++ rest) := by
      rw [hbodied.text]
      nth_rewrite 1 [hrest]
      simp
    obtain ⟨sep, hsep, hslice⟩ := slice_separatorEnd htext
    have hspan : m.span = ⟨m.span.start, separatorEnd source (m.span.start +
        byteLength (front ++ '\x7d' :: gapText (trailing after)))⟩ := by
      rw [← hstop, ← howned.stop_eq]
    have hsignature : (m.method source row.name name).signature =
        String.ofList (front ++ '\x7d' :: (gapText (trailing after) ++ sep)) := by
      rw [Member.method, hspan, hslice]
      simp
    refine Or.inr ⟨front, after, sep, hbodied, hsep, hsignature, ends_properly_iff hsep hsignature, ?_⟩
    rcases trailing_eq_nil_or after with hnil | ⟨gap, y, hgap, -⟩
    · exact Or.inl hnil
    · exact Or.inr ⟨gap, y, hgap⟩

/-- A semicolon behind a blank belongs to the method. -/
theorem extract_endings_separated :
    extract .typeScript "class A\x7bm()\x7b\x7d ;\x7d".toList ⟨"A", ⟨none, []⟩⟩ = .ok [⟨"A", "m", "m()\x7b\x7d ;", ""⟩] ∧
      ∃ own : Tree, own.part = .member .method ∧
        (own.Bodiless .typeScript "class A\x7bm()\x7b\x7d ;\x7d".toList ∨ ∃ start front after sep,
          own.Bodied .typeScript "class A\x7bm()\x7b\x7d ;\x7d".toList start front after ∧ IsSeparator sep ∧
          "m()\x7b\x7d ;" = String.ofList (front ++ '\x7d' :: (gapText (trailing after) ++ sep))) := by
  have h : extract .typeScript "class A\x7bm()\x7b\x7d ;\x7d".toList ⟨"A", ⟨none, []⟩⟩ =
      .ok [⟨"A", "m", "m()\x7b\x7d ;", ""⟩] := by decide +kernel
  obtain ⟨ts, c, r, -, hall⟩ := extract_endings h
  obtain ⟨t, -, row, body, m, name, -, -, -, -, own, -, hpart, -, hends⟩ := hall _ List.mem_cons_self
  refine ⟨h, own, hpart, hends.imp_right ?_⟩
  rintro ⟨front, after, sep, hbodied, hsep, hsignature, -⟩
  exact ⟨_, front, after, sep, hbodied, hsep, hsignature⟩

/-- A comment behind the body of a method is a part of the method if it ends its line, and not if another member
follows on the line. -/
theorem extract_trailing_comment :
    extract .typeScript "class A \x7b foo() \x7b\x7d // t\n \x7d".toList ⟨"A", ⟨none, []⟩⟩ =
        .ok [⟨"A", "foo", "foo() \x7b\x7d // t", ""⟩] ∧
      trailing " // t\n \x7d".toList = [.blanks [' '], .remark "// t".toList] ∧
      extract .typeScript "class A \x7b foo() \x7b\x7d /* t */ bar() \x7b\x7d \x7d".toList ⟨"A", ⟨none, []⟩⟩ =
        .ok [⟨"A", "foo", "foo() \x7b\x7d", ""⟩, ⟨"A", "bar", "bar() \x7b\x7d", "/* t */"⟩] ∧
      trailing " /* t */ bar() \x7b\x7d \x7d".toList = [] := by
  decide +kernel

end SignatureDocs
