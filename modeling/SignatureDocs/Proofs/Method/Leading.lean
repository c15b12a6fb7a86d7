import SignatureDocs.Proofs.Method.Comment
import SignatureDocs.Proofs.Outline.Walk

/-!
The text before a method. It is exactly the gap of the grammar between the part before the method and the method's
first lexeme, so the comment of a method is a second reading of that gap.
-/
namespace SignatureDocs

open SignatureDocs.Text SignatureDocs.Grammar

variable {source : List Char}

/-- No separator stands in a gap before solid text. -/
theorem separatorEnd_eq_self {a b : Nat} (hgap : GapTo source a b) (hsolid : SolidAt source b) :
    separatorEnd source a = a := by
  obtain ⟨text, htext, hnext⟩ := hgap
  rcases separatorEnd_cases htext with heq | ⟨gap, x, tail, rfl, hspaces, hx, -⟩
  · exact heq
  · exfalso
    have hleads : leads (x :: tail) = true := by rcases hx with rfl | rfl <;> rfl
    rw [next_of_spaces hspaces hleads] at hnext
    obtain ⟨c, rest, hdrop, hc⟩ := hsolid
    rw [← hnext, dropBytes?_add htext] at hdrop
    obtain ⟨rfl, -⟩ := List.cons.inj (Option.some.inj hdrop)
    rcases hx with rfl | rfl <;> cases hc

/-- A member stands in a body behind a separator or another member, with its decorators and then itself, and only a
gap between. -/
structure Member.Led (source : List Char) (children : List Tree) (m : Member) : Prop where
  parts : ∃ before prev decorators own after,
    children = before ++ prev :: (decorators ++ own :: after) ∧
    (prev.part = .separator ∨ prev.isMember = true) ∧ (∀ t ∈ decorators, t.part = .decorator) ∧
    own.isMember = true ∧ prev.span.stop = m.trivia.start ∧
    (decorators.head?.getD own).span.start = m.span.start ∧ separatorEnd source own.span.stop = m.span.stop
  trivia_stop : m.trivia.stop = m.span.start
  gap : GapTo source m.trivia.start m.span.start

theorem Member.Led.append {children : List Tree} {m : Member} (h : m.Led source children) (front : List Tree) :
    m.Led source (front ++ children) := by
  obtain ⟨before, prev, decorators, own, after, rfl, hparts⟩ := h.parts
  exact ⟨⟨front ++ before, prev, decorators, own, after, by simp, hparts⟩, h.trivia_stop, h.gap⟩

/-- On the way through a body: `prev` is the separator or member before the next member, and `decorators` are those of
the next member that have been passed. The parts from the offset `a` on are still to come. -/
structure BodyState.Tracks (source : List Char) (prev : Tree) (decorators : List Tree) (st : BodyState) (a : Nat)
    (ts : List Tree) : Prop where
  prev_part : prev.part = .separator ∨ prev.isMember = true
  decorators_part : ∀ t ∈ decorators, t.part = .decorator
  decorated : st.decorated = decorators.head?.map (·.span.start)
  idle : decorators = [] → a = prev.span.stop ∧
    (st.cursor = prev.span.stop ∨ st.cursor = separatorEnd source prev.span.stop)
  waiting : ∀ t ∈ decorators.head?, st.cursor = prev.span.stop ∧ GapTo source prev.span.stop t.span.start
  next : decorators ≠ [] → ∃ u us, ts = u :: us ∧ (u.part = .decorator ∨ u.isMember = true)

namespace BodyState.Tracks

variable {prev t : Tree} {decorators ts : List Tree} {st : BodyState} {a : Nat}

/-- The text before a member or its first decorator is a gap behind the part before. -/
theorem start (h : st.Tracks source prev decorators a (t :: ts)) (hgap : GapTo source a t.span.start)
    (hsolid : SolidAt source t.span.start) :
    st.cursor = prev.span.stop ∧ st.decorated.getD t.span.start = (decorators.head?.getD t).span.start ∧
      GapTo source prev.span.stop (decorators.head?.getD t).span.start := by
  rw [h.decorated]
  cases decorators with
  | nil =>
    obtain ⟨rfl, hcursor⟩ := h.idle rfl
    refine ⟨?_, rfl, hgap⟩
    rwa [separatorEnd_eq_self hgap hsolid, or_self] at hcursor
  | cons u us =>
    obtain ⟨hcursor, hstart⟩ := h.waiting u rfl
    exact ⟨hcursor, rfl, hstart⟩

theorem after_separator (hpart : t.part = .separator) (ts : List Tree) :
    BodyState.Tracks source t [] ⟨t.span.stop, none⟩ t.span.stop ts :=
  ⟨Or.inl hpart, by simp, rfl, fun _ => ⟨rfl, Or.inl rfl⟩, by simp, by simp⟩

theorem after_member (hmember : t.isMember = true) (ts : List Tree) :
    BodyState.Tracks source t [] ⟨separatorEnd source t.span.stop, none⟩ t.span.stop ts :=
  ⟨Or.inr hmember, by simp, rfl, fun _ => ⟨rfl, Or.inr rfl⟩, by simp, by simp⟩

theorem after_decorator (h : st.Tracks source prev decorators a (t :: ts)) (hgap : GapTo source a t.span.start)
    (hsolid : SolidAt source t.span.start) (hpart : t.part = .decorator) (horderly : Orderly (t :: ts)) :
    BodyState.Tracks source prev (decorators ++ [t])
      { st with decorated := some (st.decorated.getD t.span.start) } t.span.stop ts := by
  obtain ⟨hcursor, hstart, hfirst⟩ := h.start hgap hsolid
  have hhead : (decorators ++ [t]).head? = some (decorators.head?.getD t) := by cases decorators <;> rfl
  refine ⟨h.prev_part, ?_, by rw [hstart, hhead, Option.map_some], by simp, fun u hu => ?_, fun _ => horderly.1 hpart⟩
  · intro u hu
    rcases List.mem_append.1 hu with hu | hu
    · exact h.decorators_part u hu
    · rwa [List.mem_singleton.1 hu]
  · obtain rfl := Option.some.inj (hhead.symm.trans hu)
    exact ⟨hcursor, hfirst⟩

/-- No decorator waits in front of a separator. -/
theorem decorators_eq_nil (h : st.Tracks source prev decorators a (t :: ts)) (hpart : t.part = .separator) :
    decorators = [] := by
  by_contra hne
  obtain ⟨u, us, heq, hu⟩ := h.next hne
  obtain ⟨rfl, -⟩ := List.cons.inj heq
  rcases hu with hu | hu
  · rw [hpart] at hu
    cases hu
  · simp [Tree.isMember, hpart] at hu

end BodyState.Tracks

/-- Every member read from the parts of a body has only a gap before it. -/
theorem membersFrom_led {owner : DeclarationKind} {prev : Tree} {decorators ts : List Tree} {st : BodyState}
    {a b : Nat} (htiled : Tiled source a ts b) (hsound : ∀ t ∈ ts, t.Sound source) (horderly : Orderly ts)
    (h : st.Tracks source prev decorators a ts) :
    ∀ m ∈ membersFrom source owner st ts, m.Led source (prev :: (decorators ++ ts)) := by
  induction ts generalizing prev decorators st a with
  | nil => simp [membersFrom]
  | cons t ts ih =>
    obtain ⟨htile, hgap, hrest⟩ := htiled
    have hsolid (hpart : t.part ≠ .separator) : SolidAt source t.span.start :=
      (hsound t List.mem_cons_self).fits.solid hpart
    -- what the step leaves behind is tracked through the parts that follow
    have hnext {prev' : Tree} {decorators' : List Tree} {st' : BodyState}
        (htracks : st'.Tracks source prev' decorators' t.span.stop ts) :
        ∀ m ∈ membersFrom source owner st' ts, m.Led source (prev' :: (decorators' ++ ts)) :=
      ih hrest (fun u hu => hsound u (List.mem_cons_of_mem t hu)) horderly.2 htracks
    obtain ⟨part, span, children⟩ := t
    cases part with
    | separator =>
      obtain rfl := h.decorators_eq_nil rfl
      have hst : { st with cursor := span.stop } = ⟨span.stop, none⟩ := by
        rw [show st.decorated = none from h.decorated]
      rw [membersFrom, hst]
      intro m hm
      exact (hnext (.after_separator rfl ts) m hm).append [prev]
    | decorator =>
      intro m hm
      have hled := hnext (h.after_decorator hgap (hsolid (by simp [Tree.part])) rfl horderly) m hm
      rwa [List.append_assoc, List.singleton_append] at hled
    | member form =>
      obtain ⟨hcursor, hstart, hfirst⟩ := h.start hgap (hsolid (by simp [Tree.part]))
      intro m hm
      rcases List.mem_cons.1 hm with rfl | hm
      · refine ⟨⟨[], prev, decorators, _, ts, rfl, h.prev_part, h.decorators_part, rfl, hcursor.symm, hstart.symm,
          rfl⟩, rfl, ?_⟩
        dsimp only
        rw [hcursor]
        exact hstart ▸ hfirst
      · exact (hnext (.after_member rfl ts) m hm).append (prev :: decorators)
    | _ => cases htile

/-- The methods of a body that is laid out in tiles have only gaps before them. -/
theorem membersFrom_laid {owner : DeclarationKind} {ts : List Tree} (hlaid : Laid source ts)
    (hsound : ∀ t ∈ ts, t.Sound source) (horderly : Orderly ts) (start : Nat) :
    ∀ m ∈ membersFrom source owner ⟨start, none⟩ ts, m.kind = .method → m.Led source ts := by
  obtain ⟨opener, rest, b, rfl, hpart, htiled⟩ := hlaid
  have hsound' : ∀ t ∈ rest, t.Sound source := fun t ht => hsound t (List.mem_cons_of_mem opener ht)
  obtain ⟨part, span, children⟩ := opener
  obtain rfl | rfl : part = .separator ∨ part = .member .other := hpart
  · intro m hm _
    exact membersFrom_led htiled hsound' horderly.2 (.after_separator rfl rest) m hm
  · intro m hm hkind
    rcases List.mem_cons.1 hm with rfl | hm
    · cases hkind
    · exact membersFrom_led htiled hsound' horderly.2 (.after_member rfl rest) m hm

theorem mem_preorder_self (t : Tree) : t ∈ t.preorder := by
  cases t
  exact List.mem_cons_self

theorem mem_preorderAll_of_mem {t : Tree} {ts : List Tree} (h : t ∈ ts) : t ∈ Tree.preorderAll ts := by
  induction ts with
  | nil => cases h
  | cons u ts ih =>
    rw [Tree.preorderAll, List.mem_append]
    rcases List.mem_cons.1 h with rfl | h
    · exact Or.inl (mem_preorder_self t)
    · exact Or.inr (ih h)

mutual

theorem mem_preorder_child {t u v : Tree} (h : u ∈ t.preorder) (hv : v ∈ u.children) : v ∈ t.preorder := by
  obtain ⟨part, span, children⟩ := t
  rw [Tree.preorder, List.mem_cons] at h ⊢
  rcases h with rfl | h
  · exact Or.inr (mem_preorderAll_of_mem hv)
  · exact Or.inr (mem_preorderAll_child h hv)

/-- What is inside a part of a forest is a part of it too. -/
theorem mem_preorderAll_child {ts : List Tree} {u v : Tree} (h : u ∈ Tree.preorderAll ts) (hv : v ∈ u.children) :
    v ∈ Tree.preorderAll ts := by
  cases ts with
  | nil => simp [Tree.preorderAll] at h
  | cons t ts =>
    rw [Tree.preorderAll, List.mem_append] at h ⊢
    rcases h with h | h
    · exact Or.inl (mem_preorder_child h hv)
    · exact Or.inr (mem_preorderAll_child h hv)

end

/-- The methods of every declaration of a file have only gaps before them. -/
theorem declaration?_led {ts : List Tree} {lo hi : Nat} (hforest : Forest source lo hi ts)
    (hbodies : ∀ t ∈ Tree.preorderAll ts, t.part = .body → Laid source t.children) {t : Tree}
    (ht : t ∈ Tree.preorderAll ts) {row : Declaration} (h : declaration? source t = some row) :
    ∃ body, childPart? .body t.children = some body ∧
      ∀ m ∈ row.members, m.kind = .method → m.Led source body.children := by
  obtain ⟨body, hbody, -, -⟩ := declaration?_placed (sound_of_mem_preorderAll hforest t ht) h
  have hchild : body ∈ t.children := List.mem_of_find?_eq_some hbody
  have hpart : body.part = .body := by simpa using List.find?_some hbody
  have hmem := mem_preorderAll_child ht hchild
  have hfits := (sound_of_mem_preorderAll hforest body hmem).fits
  have hforest' := (sound_of_mem_preorderAll hforest body hmem).forest
  refine ⟨body, hbody, fun m hm hkind => ?_⟩
  unfold declaration? at h
  split at h
  · next kind span children =>
    obtain ⟨name, -, rfl⟩ := Option.map_eq_some_iff.mp h
    have hbody' : childPart? .body children = some body := hbody
    simp only [membersOf, hbody'] at hm
    exact membersFrom_laid (hbodies body hmem hpart) (fun u hu => (hforest'.mem hu).1) (hfits.orderly hpart) _ m hm
      hkind
  · cases h

/-- Every method of a file that can be read has nothing but a gap of the grammar between the separator or member
before it and its first lexeme. Its comment is the text of the comments in that gap exactly if the gap is legible, and
it is empty exactly if the gap has no comment or hides the first one. -/
theorem extract_comments {d : Dialect} {source : List Char} {s : Selection} {ms : List Method}
    (h : extract d source s = .ok ms) : ∃ ts c r, readFile d source = .accepted ts c r ∧ ∀ x ∈ ms,
      ∃ t ∈ Tree.preorderAll ts, ∃ row body m name gap rest, declaration? source t = some row ∧
        childPart? .body t.children = some body ∧ m ∈ row.members ∧ x = m.method source row.name name ∧
        m.Led source body.children ∧ GapBetween source m.trivia.start m.span.start gap rest ∧
        (x.comment = String.ofList (trim (joined (remarks gap))) ↔ Legible gap) ∧
        (x.comment = "" ↔ remarks gap = [] ∨ Hidden gap) := by
  obtain ⟨ts, c, r, hfile, hforest, rfl⟩ := extract_eq_ok h
  refine ⟨ts, c, r, hfile, fun x hx => ?_⟩
  obtain ⟨row, hrow, hx⟩ := List.mem_flatMap.1 hx
  obtain ⟨-, m, hm, hkind, name, rfl⟩ := Declaration.mem_methods hx
  obtain ⟨t, ht, hdecl⟩ := Outline.mem_declarations hforest hrow
  obtain ⟨body, hbody, hled⟩ := declaration?_led hforest (readFile_bodies hfile) ht hdecl
  obtain ⟨gap, rest, hgap⟩ := (hled m hm hkind).gap.between
  have hcomment : (m.method source row.name name).comment = String.ofList (commentText (gapText gap)) := by
    have htrivia : m.trivia = ⟨m.trivia.start, m.span.start⟩ := by rw [← (hled m hm hkind).trivia_stop]
    rw [Member.method, leadingComment, htrivia, hgap.slice]
  -- the outline has the declaration with its children, the grammar without them
  refine ⟨t, ht, row.bare, body, m, name, gap, rest, hdecl, hbody, hm, rfl, hled m hm hkind, hgap, ?_, ?_⟩
  · rw [hcomment, String.ofList_inj, commentText_eq_iff hgap.cut]
  · rw [hcomment, ← commentText_gapText_eq_nil_iff hgap.cut]
    exact String.ofList_eq_empty_iff

/-- A line that ends with a line separator and then a line feed is legible, and a decorator is where its method
starts. -/
theorem extract_comments_decorated :
    extract .typeScript "class A\x7b// c\u2028\n @d m()\x7b\x7d\x7d".toList ⟨"A", ⟨none, []⟩⟩ =
        .ok [⟨"A", "m", "@d m()\x7b\x7d", "// c"⟩] ∧
      ∃ a b gap rest,
        GapBetween "class A\x7b// c\u2028\n @d m()\x7b\x7d\x7d".toList a b gap rest ∧
        remarks gap ≠ [] ∧ ¬ Hidden gap ∧
        ("// c" = String.ofList (trim (joined (remarks gap))) ↔ Legible gap) := by
  have h : extract .typeScript "class A\x7b// c\u2028\n @d m()\x7b\x7d\x7d".toList ⟨"A", ⟨none, []⟩⟩ =
      .ok [⟨"A", "m", "@d m()\x7b\x7d", "// c"⟩] := by decide +kernel
  obtain ⟨ts, c, r, -, hall⟩ := extract_comments h
  obtain ⟨t, -, row, body, m, name, gap, rest, -, -, -, -, -, hgap, hsame, hempty⟩ := hall _ List.mem_cons_self
  have hsome : ¬ (remarks gap = [] ∨ Hidden gap) := fun hno => absurd (hempty.2 hno) (by decide)
  exact ⟨h, _, _, gap, rest, hgap, fun hnone => hsome (Or.inl hnone), fun hhidden => hsome (Or.inr hhidden), hsame⟩

/-- A byte order mark before a comment hides it: the grammar finds the comment, and the method has none. -/
theorem extract_hidden_comment :
    extract .typeScript "class A \x7b\ufeff// c\n foo() \x7b\x7d \x7d".toList ⟨"A", ⟨none, []⟩⟩ =
        .ok [⟨"A", "foo", "foo() \x7b\x7d", ""⟩] ∧
      (pieces "\ufeff// c\n foo() \x7b\x7d \x7d".toList).1 =
        [.blanks ['\ufeff'], .remark "// c".toList, .blanks "\n ".toList] ∧
      String.ofList (trim (joined ["// c".toList])) = "// c" := by
  decide +kernel

end SignatureDocs
