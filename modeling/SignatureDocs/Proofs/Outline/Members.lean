import SignatureDocs.Method.Basic
import SignatureDocs.Proofs.Outline.Containment

/-!
Where the members of a declaration lie. The members and the texts before them follow one another through the
body without overlapping, and each can be cut out of the source, so no method that is asked for is lost.
-/
namespace SignatureDocs

open SignatureDocs.Text SignatureDocs.Grammar

variable {source : List Char}

/-- At most blanks and one separator lie between the offset `lo` and the offset `cursor`. -/
def Reaches (source : List Char) (lo cursor : Nat) : Prop :=
  ∀ q c rest, lo ≤ q → dropBytes? source q = some (c :: rest) → c ≠ ' ' → c ≠ '\t' →
    cursor ≤ q + 1 ∧ (isSolid c = true → cursor ≤ q)

theorem Reaches.refl (source : List Char) (lo : Nat) : Reaches source lo lo := by
  intro q c rest hle _ _ _
  exact ⟨by omega, fun _ => hle⟩

theorem Reaches.mono {lo lo' cursor : Nat} (h : Reaches source lo cursor) (hle : lo ≤ lo') :
    Reaches source lo' cursor := fun q c rest hq => h q c rest (hle.trans hq)

theorem Reaches.le_of_solidAt {lo cursor q : Nat} (h : Reaches source lo cursor) (hle : lo ≤ q)
    (hq : SolidAt source q) : cursor ≤ q := by
  obtain ⟨c, rest, hdrop, hsolid⟩ := hq
  have hblank : c ≠ ' ' ∧ c ≠ '\t' := by
    constructor <;> rintro rfl <;> simp [isSolid] at hsolid
  exact (h q c rest hle hdrop hblank.1 hblank.2).2 hsolid

theorem byteLength_of_blank {gap : List Char} (h : ∀ c ∈ gap, c = ' ' ∨ c = '\t') :
    byteLength gap = gap.length := by
  induction gap with
  | nil => rfl
  | cons c gap ih =>
    have hone : c.utf8Size = 1 := by
      rcases h c (by simp) with rfl | rfl <;> rfl
    rw [byteLength_cons, hone, ih fun d hd => h d (List.mem_cons_of_mem c hd), List.length_cons]
    omega

/-- A member ends where its part of the tree does, or behind blanks and the separator that follows them. -/
theorem separatorEnd_cases {stop : Nat} {rest : List Char} (h : dropBytes? source stop = some rest) :
    separatorEnd source stop = stop ∨ ∃ gap x tail, rest = gap ++ x :: tail ∧
      (∀ c ∈ gap, c = ' ' ∨ c = '\t') ∧ (x = ';' ∨ x = ',') ∧
      separatorEnd source stop = stop + byteLength (gap ++ [x]) := by
  unfold separatorEnd
  rw [h]
  dsimp only [Option.getD_some]
  have hgap : ∀ c ∈ rest.takeWhile fun c => c = ' ' || c = '\t', c = ' ' ∨ c = '\t' := by
    intro c hc
    simpa using List.mem_takeWhile_imp hc
  have hsplit := List.prefix_iff_eq_append.mp (List.takeWhile_prefix (fun c => c = ' ' || c = '\t') (l := rest))
  generalize rest.takeWhile (fun c => c = ' ' || c = '\t') = gap at hgap hsplit
  have hlength := byteLength_of_blank hgap
  split
  · next tail htail =>
    rw [htail] at hsplit
    refine Or.inr ⟨gap, ';', tail, hsplit.symm, hgap, Or.inl rfl, ?_⟩
    rw [byteLength_append, hlength, Nat.add_assoc]
    rfl
  · next tail htail =>
    rw [htail] at hsplit
    refine Or.inr ⟨gap, ',', tail, hsplit.symm, hgap, Or.inr rfl, ?_⟩
    rw [byteLength_append, hlength, Nat.add_assoc]
    rfl
  · exact Or.inl rfl

theorem le_separatorEnd {stop : Nat} (h : (dropBytes? source stop).isSome) :
    stop ≤ separatorEnd source stop := by
  obtain ⟨rest, hrest⟩ := Option.isSome_iff_exists.mp h
  rcases separatorEnd_cases hrest with heq | ⟨gap, x, tail, -, -, -, heq⟩
  · exact heq.ge
  · rw [heq]
    exact Nat.le_add_right _ _

theorem separatorEnd_isSome {stop : Nat} (h : (dropBytes? source stop).isSome) :
    (dropBytes? source (separatorEnd source stop)).isSome := by
  obtain ⟨rest, hrest⟩ := Option.isSome_iff_exists.mp h
  rcases separatorEnd_cases hrest with heq | ⟨gap, x, tail, rfl, -, -, heq⟩
  · rw [heq]
    exact h
  · have htail : gap ++ x :: tail = (gap ++ [x]) ++ tail := by simp
    rw [heq, dropBytes?_add (htail ▸ hrest)]
    rfl

theorem reaches_separatorEnd {stop : Nat} (h : (dropBytes? source stop).isSome) :
    Reaches source stop (separatorEnd source stop) := by
  obtain ⟨rest, hrest⟩ := Option.isSome_iff_exists.mp h
  rcases separatorEnd_cases hrest with heq | ⟨gap, x, tail, rfl, hgap, hx, heq⟩
  · rw [heq]
    exact Reaches.refl source stop
  intro q c cs hle hq hspace htab
  obtain ⟨xs, hxs, hlen⟩ := dropBytes?_between hrest hq hle
  have hxone : byteLength [x] = 1 := by
    rcases hx with rfl | rfl <;> rfl
  rw [byteLength_append, hxone] at heq
  -- the character at `q` is not blank, so it stands behind the gap: it is the separator or comes later
  rcases List.append_eq_append_iff.mp hxs with ⟨ys, rfl, hys⟩ | ⟨ys, rfl, hys⟩
  · rw [byteLength_append] at hlen
    cases ys with
    | nil =>
      obtain ⟨rfl, rfl⟩ := List.cons.inj hys
      refine ⟨by simp at hlen; omega, fun hsolid => ?_⟩
      rcases hx with rfl | rfl <;> simp [isSolid] at hsolid
    | cons y ys =>
      have hy := byteLength_pos (List.cons_ne_nil y ys)
      exact ⟨by omega, fun _ => by omega⟩
  · cases ys with
    | nil =>
      obtain ⟨rfl, rfl⟩ := List.cons.inj hys
      refine ⟨by simp at heq; omega, fun hsolid => ?_⟩
      rcases hx with rfl | rfl <;> simp [isSolid] at hsolid
    | cons y ys =>
      obtain ⟨rfl, -⟩ := List.cons.inj hys
      rcases hgap c (by simp) with rfl | rfl
      · exact absurd rfl hspace
      · exact absurd rfl htab

/-- A member lies in the source, behind the text before it and, unless it is a mark of no kind, before the
offset `hi`. -/
structure Member.Placed (source : List Char) (hi : Nat) (m : Member) : Prop where
  trivia_stop : m.trivia.stop = m.span.start
  trivia_le : m.trivia.start ≤ m.span.start
  nonempty : m.span.start < m.span.stop
  le_length : m.span.stop ≤ byteLength source
  trivia_isSome : (dropBytes? source m.trivia.start).isSome
  start_isSome : (dropBytes? source m.span.start).isSome
  stop_isSome : (dropBytes? source m.span.stop).isSome
  /-- The text of its name is in the member. -/
  named : ∀ name, m.name = some name → ∃ s, m.span.Contains s ∧ slice? source s = some name.toList
  stop_le : m.kind ≠ .other → m.span.stop ≤ hi

/-- Members one after another from the offset `lo` on, each with the text before it. -/
def Placed (source : List Char) (hi : Nat) : Nat → List Member → Prop
  | _, [] => True
  | lo, m :: ms => lo ≤ m.trivia.start ∧ m.Placed source hi ∧ Placed source hi m.span.stop ms

theorem Placed.mono {hi lo lo' : Nat} {ms : List Member} (h : Placed source hi lo ms) (hle : lo' ≤ lo) :
    Placed source hi lo' ms := by
  cases ms with
  | nil => trivial
  | cons m ms => exact ⟨hle.trans h.1, h.2⟩

theorem Placed.mem {hi lo : Nat} {ms : List Member} (h : Placed source hi lo ms) {m : Member}
    (hm : m ∈ ms) : m.Placed source hi ∧ lo ≤ m.trivia.start := by
  induction ms generalizing lo with
  | nil => simp at hm
  | cons x ms ih =>
    rcases List.mem_cons.mp hm with rfl | hm
    · exact ⟨h.2.1, h.1⟩
    · obtain ⟨hplaced, hle⟩ := ih h.2.2 hm
      have hx := h.2.1.trivia_le
      have hx' := h.2.1.nonempty
      have hlo := h.1
      exact ⟨hplaced, by omega⟩

/-- The next trivia starts before the next part of a body that has solid text, and a decorator that waits has its
member in front of it. -/
structure BodyState.Ready (source : List Char) (lo : Nat) (st : BodyState) (ts : List Tree) : Prop where
  cursor_isSome : (dropBytes? source st.cursor).isSome
  reaches : Reaches source lo st.cursor
  decorated : ∀ s, st.decorated = some s → st.cursor ≤ s ∧ s ≤ lo ∧ (dropBytes? source s).isSome ∧
    ∃ u us, ts = u :: us ∧ (u.part = .decorator ∨ u.isMember = true)

namespace BodyState.Ready

variable {lo hi : Nat} {st : BodyState} {t : Tree} {ts : List Tree}

/-- A decorator or member starts behind the cursor, as does the first decorator before it. -/
theorem start (h : st.Ready source lo (t :: ts)) (hle : lo ≤ t.span.start) (ht : t.Sound source)
    (hpart : t.part ≠ .separator) : st.cursor ≤ st.decorated.getD t.span.start ∧
      st.decorated.getD t.span.start ≤ t.span.start ∧
      (dropBytes? source (st.decorated.getD t.span.start)).isSome := by
  cases hdec : st.decorated with
  | none =>
    exact ⟨h.reaches.le_of_solidAt hle (ht.fits.solid hpart), Nat.le_refl _, ht.fits.start_isSome⟩
  | some s =>
    obtain ⟨hcursor, hs, hsome, -⟩ := h.decorated s hdec
    exact ⟨hcursor, hs.trans hle, hsome⟩

/-- No decorator waits in front of a part that is neither a decorator nor a member. -/
theorem decorated_eq_none (h : st.Ready source lo (t :: ts)) (hdec : t.part ≠ .decorator)
    (hmember : t.isMember = false) : st.decorated = none := by
  cases hst : st.decorated with
  | none => rfl
  | some s =>
    obtain ⟨-, -, -, u, us, heq, hnext⟩ := h.decorated s hst
    obtain ⟨rfl, rfl⟩ := List.cons.inj heq
    rcases hnext with hnext | hnext
    · exact absurd hnext hdec
    · rw [hmember] at hnext
      cases hnext

theorem separator (h : st.Ready source lo (t :: ts)) (hle : lo ≤ t.span.start) (ht : t.Sound source)
    (hpart : t.part = .separator) : st.cursor ≤ t.span.stop ∧
      BodyState.Ready source t.span.stop { st with cursor := t.span.stop } ts := by
  obtain ⟨hstop, c, rest, hdrop, hspace, htab⟩ := ht.fits.separator hpart
  have hnone : st.decorated = none :=
    h.decorated_eq_none (by simp [hpart]) (by simp [Tree.isMember, hpart])
  refine ⟨?_, ht.fits.stop_isSome, Reaches.refl source _, by simp [hnone]⟩
  have hreach := (h.reaches _ c rest hle hdrop hspace htab).1
  omega

theorem decorator (h : st.Ready source lo (t :: ts)) (hle : lo ≤ t.span.start) (ht : t.Sound source)
    (horderly : Orderly (t :: ts)) (hpart : t.part = .decorator) : BodyState.Ready source t.span.stop
      { st with decorated := some (st.decorated.getD t.span.start) } ts := by
  have hlt := ht.fits.nonempty
  obtain ⟨hcursor, hs, hsome⟩ := h.start hle ht (by simp [hpart])
  refine ⟨h.cursor_isSome, h.reaches.mono (by omega), fun s heq => ?_⟩
  obtain rfl := Option.some.inj heq
  exact ⟨hcursor, by omega, hsome, horderly.1 hpart⟩

theorem member (ht : t.Sound source) (ts : List Tree) :
    BodyState.Ready source t.span.stop ⟨separatorEnd source t.span.stop, none⟩ ts :=
  ⟨separatorEnd_isSome ht.fits.stop_isSome, reaches_separatorEnd ht.fits.stop_isSome, by simp⟩

theorem other (h : st.Ready source lo (t :: ts)) (hle : lo ≤ t.span.start) (ht : t.Sound source)
    (hdec : t.part ≠ .decorator) (hmember : t.isMember = false) :
    BodyState.Ready source t.span.stop st ts := by
  have hlt := ht.fits.nonempty
  have hnone := h.decorated_eq_none hdec hmember
  exact ⟨h.cursor_isSome, h.reaches.mono (by omega), by simp [hnone]⟩

end BodyState.Ready

/-- The text of a sound part of the tree is what its span cuts out. -/
theorem slice?_eq_textOf {t : Tree} (ht : t.Sound source) :
    slice? source t.span = some (textOf source t.span).toList := by
  have hfits := ht.fits
  obtain ⟨xs, hxs⟩ := Option.isSome_iff_exists.mp
    (slice?_isSome hfits.start_isSome hfits.stop_isSome hfits.nonempty.le)
  rw [textOf, slice, hxs, Option.getD_some, String.toList_ofList]

theorem memberKind_eq_other (owner : DeclarationKind) (name : Option String) (children : List Tree) :
    memberKind owner .other name children = .other := rfl

/-- The member that a part of a body stands for. -/
theorem placed_of_member {owner : DeclarationKind} {form : MemberForm} {span : Span} {children : List Tree}
    {hi cursor start : Nat} (ht : (Grammar.Tree.node (.member form) span children).Sound source)
    (hcapped : Capped source hi (.node (.member form) span children)) (hcursor : cursor ≤ start)
    (hstart : start ≤ span.start) (hc : (dropBytes? source cursor).isSome)
    (hs : (dropBytes? source start).isSome) (name : Option String)
    (hname : name = (childPart? .memberName children).map fun t => textOf source t.span) :
    Member.Placed source hi ⟨memberKind owner form name children, name,
      ⟨start, separatorEnd source span.stop⟩, ⟨cursor, start⟩⟩ := by
  have hlt : span.start < span.stop := ht.fits.nonempty
  have hstop : (dropBytes? source span.stop).isSome := ht.fits.stop_isSome
  have hend := le_separatorEnd hstop
  have hsome := separatorEnd_isSome hstop
  refine ⟨rfl, hcursor, ?_, ?_, hc, hs, hsome, ?_, ?_⟩
  · dsimp only
    omega
  · obtain ⟨rest, hrest⟩ := Option.isSome_iff_exists.mp hsome
    exact dropBytes?_le hrest
  · rintro n rfl
    obtain ⟨u, hu, rfl⟩ := Option.map_eq_some_iff.mp hname.symm
    obtain ⟨hsound, hlo, hhi⟩ := ht.forest.mem (List.mem_of_find?_eq_some hu)
    refine ⟨u.span, ⟨hstart.trans hlo, hhi.trans hend⟩, slice?_eq_textOf hsound⟩
  · intro hkind
    rcases hcapped with ⟨hpart, -⟩ | ⟨q, hq, hqhi, hsolid⟩
    · obtain rfl : form = .other := by simpa [Tree.part] using hpart
      exact absurd (memberKind_eq_other owner name children) hkind
    · exact ((reaches_separatorEnd hstop).le_of_solidAt hq hsolid).trans hqhi.le

/-- The members read from the parts of a body lie in it one after another. -/
theorem membersFrom_placed {owner : DeclarationKind} {lo hi : Nat} {st : BodyState} {ts : List Tree}
    (hts : Forest source lo hi ts) (horderly : Orderly ts) (hcapped : ∀ t ∈ ts, Capped source hi t)
    (h : st.Ready source lo ts) : Placed source hi st.cursor (membersFrom source owner st ts) := by
  induction ts generalizing lo st with
  | nil => trivial
  | cons t ts ih =>
    obtain ⟨hle, ht, hrest⟩ := hts
    -- what the step leaves behind is ready for the parts that follow
    have hnext {st' : BodyState} (hready : st'.Ready source t.span.stop ts) :
        Placed source hi st'.cursor (membersFrom source owner st' ts) :=
      ih hrest horderly.2 (fun u hu => hcapped u (List.mem_cons_of_mem t hu)) hready
    obtain ⟨part, span, children⟩ := t
    cases part with
    | separator =>
      obtain ⟨hcursor, hready⟩ := h.separator hle ht rfl
      exact (hnext hready).mono hcursor
    | decorator => exact hnext (h.decorator hle ht horderly rfl)
    | member form =>
      obtain ⟨hcursor, hstart, hsome⟩ := h.start hle ht (by simp [Tree.part])
      refine ⟨Nat.le_refl _, ?_, hnext (BodyState.Ready.member ht ts)⟩
      exact placed_of_member ht (hcapped _ List.mem_cons_self) hcursor hstart h.cursor_isSome hsome _ rfl
    | _ => exact hnext (h.other hle ht (by simp [Tree.part]) rfl)

mutual

theorem sound_of_mem_preorder {t : Tree} (h : t.Sound source) :
    ∀ u ∈ t.preorder, u.Sound source := by
  obtain ⟨part, span, children⟩ := t
  intro u hu
  rw [Tree.preorder, List.mem_cons] at hu
  rcases hu with rfl | hu
  · exact h
  · exact sound_of_mem_preorderAll h.forest u hu

/-- Every tree inside a forest is sound. -/
theorem sound_of_mem_preorderAll {lo hi : Nat} {ts : List Tree} (h : Forest source lo hi ts) :
    ∀ u ∈ Tree.preorderAll ts, u.Sound source := by
  intro u hu
  cases ts with
  | nil => simp [Tree.preorderAll] at hu
  | cons t ts =>
    rw [Tree.preorderAll, List.mem_append] at hu
    rcases hu with hu | hu
    · exact sound_of_mem_preorder h.2.1 u hu
    · exact sound_of_mem_preorderAll h.2.2 u hu

end

/-- The members of a declaration lie in its body, which has the end of the declaration behind it. -/
theorem declaration?_placed {t : Tree} {d : Declaration} (ht : t.Sound source)
    (h : declaration? source t = some d) : ∃ body, childPart? .body t.children = some body ∧
      d.span.Contains body.span ∧ Placed source body.span.stop body.span.start d.members := by
  unfold declaration? at h
  split at h
  · next kind span children =>
    obtain ⟨name, -, rfl⟩ := Option.map_eq_some_iff.mp h
    obtain ⟨front, last, hchildren, hlast⟩ := ht.fits.endsInBody kind rfl
    obtain ⟨body, hbody⟩ : ∃ body, childPart? .body children = some body := by
      apply Option.isSome_iff_exists.mp
      rw [childPart?, List.find?_isSome]
      exact ⟨last, by rw [show children = _ from hchildren]; simp, by simpa using hlast⟩
    obtain ⟨hsound, hlo, hhi⟩ := ht.forest.mem (List.mem_of_find?_eq_some hbody)
    have hpart : body.part = .body := by simpa using List.find?_some hbody
    refine ⟨body, hbody, ⟨hlo, hhi⟩, ?_⟩
    have hready : BodyState.Ready source body.span.start ⟨body.span.start, none⟩ body.children :=
      ⟨hsound.fits.start_isSome, Reaches.refl source _, by simp⟩
    rw [membersOf, hbody]
    exact membersFrom_placed hsound.forest (hsound.fits.orderly hpart) (hsound.fits.capped hpart) hready
  · simp at h

theorem Outline.mem_declarations {lo hi : Nat} {ts : List Tree} {row : Declaration}
    (h : Forest source lo hi ts) (hrow : row ∈ (outlineOf source ts).declarations) :
    ∃ t ∈ Tree.preorderAll ts, declaration? source t = some row.bare := by
  rw [outlineOf_eq h] at hrow
  have hbare := List.mem_map_of_mem (f := Declaration.bare) hrow
  rw [Nest.bare_rowsAll] at hbare
  exact List.mem_filterMap.mp hbare

namespace Member

/-- The method that a member of a given name stands for. -/
def method (source : List Char) (declarationName name : String) (m : Member) : Method :=
  ⟨declarationName, name, String.ofList (slice source m.span), leadingComment source m.trivia⟩

theorem Placed.span_isSome {hi : Nat} {m : Member} (h : m.Placed source hi) :
    (slice? source m.span).isSome := slice?_isSome h.start_isSome h.stop_isSome h.nonempty.le

theorem Placed.trivia_span_isSome {hi : Nat} {m : Member} (h : m.Placed source hi) :
    (slice? source m.trivia).isSome := by
  apply slice?_isSome h.trivia_isSome
  · rw [h.trivia_stop]
    exact h.start_isSome
  · rw [h.trivia_stop]
    exact h.trivia_le

/-- A method that is asked for is found. -/
theorem Placed.member?_eq_found {hi : Nat} {m : Member} {s : Selection} {name : String}
    (h : m.Placed source hi) (hkind : m.kind = .method) (hname : m.name = some name)
    (haccepts : s.filter.accepts name = true) (declarationName : String) :
    Visit.member? source s declarationName m = some (.found (m.method source declarationName name)) := by
  obtain ⟨xs, hxs⟩ := Option.isSome_iff_exists.mp h.span_isSome
  simp [Visit.member?, hkind, hname, haccepts, hxs, method, slice]

end Member

/-- The members of every declaration of a file that can be read follow one another in its body, each behind the
text before it, with all ends between characters of the file. So every member and every such text can be cut out,
and each method that is asked for is found. -/
theorem Outline.members_placed {d : Dialect} {source : List Char} {o : Outline}
    (h : Outline.read d source = .ok o) :
    ∃ ts c r, readFile d source = .accepted ts c r ∧ ∀ row ∈ o.declarations,
      ∃ t ∈ Tree.preorderAll ts, declaration? source t = some row.bare ∧
      ∃ body, childPart? .body t.children = some body ∧ row.span.Contains body.span ∧
        Placed source body.span.stop body.span.start row.members ∧
        ∀ m ∈ row.members, (slice? source m.span).isSome ∧ (slice? source m.trivia).isSome ∧
          (m.kind = .method → row.span.Contains m.span ∧
            ∀ (s : Selection) (name : String), m.name = some name → s.filter.accepts name = true →
              Visit.member? source s row.name m = some (.found (m.method source row.name name))) := by
  obtain ⟨ts, c, r, hread, hforest, rfl⟩ := Outline.read_eq_ok h
  refine ⟨ts, c, r, hread, fun row hrow => ?_⟩
  obtain ⟨t, ht, hdecl⟩ := Outline.mem_declarations hforest hrow
  obtain ⟨body, hbody, hinside, hplaced⟩ :=
    declaration?_placed (sound_of_mem_preorderAll hforest t ht) hdecl
  refine ⟨t, ht, hdecl, body, hbody, hinside, hplaced, fun m hm => ?_⟩
  obtain ⟨hm, hlo⟩ := hplaced.mem hm
  refine ⟨hm.span_isSome, hm.trivia_span_isSome, fun hkind => ⟨⟨?_, ?_⟩, ?_⟩⟩
  · exact (hinside.1.trans hlo).trans hm.trivia_le
  · exact (hm.stop_le (by simp [hkind])).trans hinside.2
  · intro s name hname haccepts
    exact hm.member?_eq_found hkind hname haccepts row.name

/-- A decorator belongs to its method, a separator behind a blank too, and comments of wider characters are cut
where they start and end. -/
theorem Outline.members_placed_decorated :
    ∃ source o, Outline.read .typeScript source = .ok o ∧
      o.declarations.map (fun row => row.members.map fun m => (m.trivia, m.span)) =
        [[(⟨8, 14⟩, ⟨14, 24⟩), (⟨24, 30⟩, ⟨30, 37⟩), (⟨37, 37⟩, ⟨37, 38⟩)]] ∧
      ∀ row ∈ o.declarations, ∃ body : Span, row.span.Contains body ∧
        Placed source body.stop body.start row.members := by
  have h : Outline.read .typeScript "class A\x7b/*é*/@d m()\x7b\x7d ;/*ö*/n():T ,p\x7d".toList = .ok
      ⟨[⟨.classKind, "A", ⟨0, 39⟩, [⟨.method, some "m", ⟨14, 24⟩, ⟨8, 14⟩⟩,
        ⟨.method, some "n", ⟨30, 37⟩, ⟨24, 30⟩⟩, ⟨.property, some "p", ⟨37, 38⟩, ⟨37, 37⟩⟩], []⟩], [0]⟩ := by
    decide +kernel
  refine ⟨_, _, h, rfl, fun row hrow => ?_⟩
  obtain ⟨ts, c, r, -, hrows⟩ := Outline.members_placed h
  obtain ⟨t, -, -, body, -, hinside, hplaced, -⟩ := hrows row hrow
  exact ⟨body.span, hinside, hplaced⟩

end SignatureDocs
