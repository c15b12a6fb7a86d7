import SignatureDocs.Proofs.Documentation.Pipeline
import SignatureDocs.Proofs.Storage.Related

/-!
Fragments that are added to pages one after another, where one that fails does not end the run. Names are not
restricted here: several may lead to one file, out of the output directory, or nowhere. Every file holds what it held,
followed by what was written to it of the fragments.

A fragment fails at the output directory, at its page, or in it. One that fails at its page leaves the tree as any
other would find it, so the rest of the run does not depend on it. One whose write stops leaves a first part of itself
in its page; the same other fragments are added after it, but a page that could not be opened anyway may now have
another fault. If the output directory cannot be made, nothing is ever added; only the fault that is reported may
change after the first attempt.
-/
namespace SignatureDocs

open SignatureDocs.Text

namespace Page

/-- A fragment for the page of a declaration, and what the disk makes of writing it. -/
structure Fragment where
  declarationName : String
  text : String
  room : Room
deriving DecidableEq, Repr

namespace Fragment

/-- The bytes that a fragment adds to its page. -/
def bytes (f : Fragment) : List UInt8 := encode (addition f.declarationName f.text)

/-- The place that the path of a fragment's page says. -/
def place (f : Fragment) (t : FileTree) (dir : Path) : Location := t.written (path dir f.declarationName)

/-- Adds a fragment to its page. -/
def addTo (f : Fragment) (t : FileTree) (dir : Path) : FileTree × Except PathFault Path :=
  appendOn f.room t dir f.declarationName f.text

/-- What is written of a fragment with such an outcome: all of it, what there was room for, or nothing. -/
def part? (f : Fragment) : Except PathFault Path → Option (List UInt8)
  | .ok _ => some f.bytes
  | .error g => if g.fault.isStop then some (f.room.taken f.bytes) else none

/-- The outcome of a fragment whose page was opened. -/
def outcome (f : Fragment) (dir : Path) : Except PathFault Path :=
  match f.room.fault? f.bytes with
  | none => .ok (path dir f.declarationName)
  | some g => .error ⟨path dir f.declarationName, g⟩

end Fragment

/-- Adds fragments in turn, whatever became of those before. -/
def appendAll (dir : Path) : FileTree → List Fragment → FileTree × List (Except PathFault Path)
  | t, [] => (t, [])
  | t, f :: fs =>
    let q := f.addTo t dir
    let r := appendAll dir q.1 fs
    (r.1, q.2 :: r.2)

/-- The fragments of which something was written, and what this is, of some with their outcomes. -/
def parts (fs : List Fragment) (outcomes : List (Except PathFault Path)) : List (Fragment × List UInt8) :=
  (fs.zip outcomes).filterMap fun q => (q.1.part? q.2).map fun part => (q.1, part)

/-- What was written to a place, in its order. -/
def partsAt (t : FileTree) (dir : Path) (l : Location) (ps : List (Fragment × List UInt8)) : List (List UInt8) :=
  (ps.filter fun q => q.1.place t dir = l).map Prod.snd

variable {t t' : FileTree} {dir : Path} {f : Fragment} {fs : List Fragment}

theorem parts_cons_none {outcome : Except PathFault Path} (h : f.part? outcome = none)
    (outcomes : List (Except PathFault Path)) : parts (f :: fs) (outcome :: outcomes) = parts fs outcomes := by
  simp [parts, h]

theorem parts_cons_some {outcome : Except PathFault Path} {part : List UInt8} (h : f.part? outcome = some part)
    (outcomes : List (Except PathFault Path)) :
    parts (f :: fs) (outcome :: outcomes) = (f, part) :: parts fs outcomes := by
  simp [parts, h]

theorem Fragment.place_congr (h : t'.here = t.here) (f : Fragment) (dir : Path) : f.place t' dir = f.place t dir :=
  FileTree.written_congr h _

theorem partsAt_congr (h : t'.here = t.here) (dir : Path) (l : Location) (ps : List (Fragment × List UInt8)) :
    partsAt t' dir l ps = partsAt t dir l ps := by
  unfold partsAt
  simp only [Fragment.place_congr h]

namespace Fragment

theorem part?_error {g : PathFault} (h : g.fault.isStop = false) : f.part? (.error g) = none := by
  simp [part?, h]

/-- Of a fragment whose page was opened, as much is written as there is room for. -/
theorem part?_outcome (f : Fragment) (dir : Path) : f.part? (f.outcome dir) = some (f.room.taken f.bytes) := by
  unfold outcome
  cases hfault : f.room.fault? f.bytes with
  | none => rw [Room.taken_of_fault?_eq_none hfault, part?]
  | some g =>
    -- a page that is open has no other fault than that of a write that stopped
    obtain ⟨n, cause, -, -, rfl⟩ := Room.fault?_eq_some.1 hfault
    rfl

theorem addTo_unopened {t₁ : FileTree} {g : FileFault} (hmade : t.createDirectories dir = (t₁, none))
    (hopened : t₁.openEnd (path dir f.declarationName) = .error g) :
    f.addTo t dir = (t₁, .error ⟨path dir f.declarationName, g⟩) := by
  simp only [addTo, appendOn, FileTree.append, hmade, hopened]

theorem addTo_opened {t₁ : FileTree} {l : Location} {old : List UInt8} (hmade : t.createDirectories dir = (t₁, none))
    (hopened : t₁.openEnd (path dir f.declarationName) = .ok (l, old)) :
    f.addTo t dir = (t₁.put l (.file (old ++ f.room.taken f.bytes)), f.outcome dir) := by
  simp only [addTo, appendOn, FileTree.append, hmade, hopened, outcome, bytes]
  cases f.room.fault? (encode (addition f.declarationName f.text)) <;> rfl

/-- Without an output directory a fragment fails there. -/
theorem addTo_unmade {g : FileFault} (h : (t.createDirectories dir).2 = some g) (f : Fragment) :
    f.addTo t dir = ((t.createDirectories dir).1, .error ⟨dir, g⟩) := by
  have hdir : t.createDirectories dir = ((t.createDirectories dir).1, some g) := Prod.ext rfl h
  unfold addTo appendOn
  rw [hdir]

/-- What adding a fragment can do: it fails before its page is opened, and then only the output directory is made; or
its page is opened, and as much is written as there is room for. -/
inductive Added (f : Fragment) (t : FileTree) (dir : Path) : FileTree × Except PathFault Path → Prop where
  | failed {g : PathFault} (fault : g.fault.isStop = false) : Added f t dir ((t.createDirectories dir).1, .error g)
  | wrote {t₁ : FileTree} {old : List UInt8} (made : t.createDirectories dir = (t₁, none))
      (opened : t₁.openEnd (path dir f.declarationName) = .ok (f.place t dir, old)) :
      Added f t dir (t₁.put (f.place t dir) (.file (old ++ f.room.taken f.bytes)), f.outcome dir)

theorem addTo_added (f : Fragment) (t : FileTree) (dir : Path) : f.Added t dir (f.addTo t dir) := by
  cases hmade : (t.createDirectories dir).2 with
  | some g =>
    rw [addTo_unmade hmade]
    exact .failed (FileTree.createDirectories_isStop hmade)
  | none =>
    have hdir : t.createDirectories dir = ((t.createDirectories dir).1, none) := Prod.ext rfl hmade
    rcases hopened : (t.createDirectories dir).1.openEnd (path dir f.declarationName) with g | ⟨l, old⟩
    · rw [addTo_unopened hdir hopened]
      exact .failed (FileTree.openEnd_isStop hopened)
    · rw [addTo_opened hdir hopened]
      -- the path says the same place before and after the output directory is made
      obtain ⟨rfl, -⟩ := FileTree.openEnd_eq_ok hopened
      rw [FileTree.written_congr (FileTree.createDirectories_grown t dir).here] at hopened ⊢
      exact .wrote hdir hopened

/-- A fragment that fails adds directories at most; one of which something is written also makes its page grow. -/
theorem addTo_grownAt (f : Fragment) (t : FileTree) (dir : Path) :
    t.GrownAt (fun l => (f.part? (f.addTo t dir).2).isSome ∧ l = f.place t dir) (f.addTo t dir).1 := by
  have hgrown := FileTree.createDirectories_grown t dir
  have hadded := f.addTo_added t dir
  generalize f.addTo t dir = q at hadded ⊢
  cases hadded with
  | failed hfault => exact hgrown.grownAt _
  | wrote hmade hopened =>
    rw [hmade] at hgrown
    obtain ⟨-, hne, hdir, -, rfl⟩ := FileTree.openEnd_eq_ok hopened
    refine (hgrown.grownAt _).trans ((FileTree.put_file_grownAt hne hdir _).mono fun l hl => ⟨?_, hl⟩)
    rw [part?_outcome]
    rfl

/-- Nothing that was made on the way to a page is lost in adding to it. -/
theorem keeps_addTo (f : Fragment) (t : FileTree) (dir : Path) :
    (t.createDirectories dir).1.Keeps (f.addTo t dir).1 := by
  have hadded := f.addTo_added t dir
  generalize f.addTo t dir = q at hadded ⊢
  cases hadded with
  | failed hfault => exact (FileTree.Grown.refl _).keeps
  | wrote hmade hopened =>
    obtain ⟨-, hne, hdir, -, -⟩ := FileTree.openEnd_eq_ok hopened
    rw [hmade]
    exact FileTree.keeps_put_file hne hdir _

/-- A fragment that fails without its write having stopped leaves the output directory behind, and nothing else. -/
theorem addTo_failed {g : PathFault} (h : (f.addTo t dir).2 = .error g) (hstop : g.fault.isStop = false) :
    (f.addTo t dir).1 = (t.createDirectories dir).1 := by
  have hadded := f.addTo_added t dir
  generalize f.addTo t dir = q at h hadded ⊢
  cases hadded with
  | failed hfault => rfl
  | wrote hmade hopened =>
    -- something would have been written, even if it is no byte
    have hpart := f.part?_outcome dir
    rw [show f.outcome dir = .error g from h, part?_error hstop] at hpart
    cases hpart

section Made

variable (hmade : (t.createDirectories dir).2 = none)

include hmade

theorem createDirectories_addTo (f : Fragment) : ((f.addTo t dir).1.createDirectories dir).2 = none := by
  rw [FileTree.createDirectories_again hmade (f.keeps_addTo t dir)]

/-- It does not matter whether the output directory is made before a fragment is added or with it. -/
theorem addTo_created (f : Fragment) : f.addTo (t.createDirectories dir).1 dir = f.addTo t dir := by
  have hagain := FileTree.createDirectories_again hmade (FileTree.Grown.refl _).keeps
  have hdir : t.createDirectories dir = ((t.createDirectories dir).1, none) := Prod.ext rfl hmade
  unfold addTo appendOn
  rw [hagain, hdir]

end Made

/-- Outside its page, adding a fragment does what making the output directory does, and it leaves nothing of that to
be done. -/
theorem addTo_settled (f : Fragment) (t : FileTree) (dir : Path) :
    ((f.addTo t dir).1.createDirectories dir).1 = (f.addTo t dir).1 ∧
      ∀ l, l ≠ f.place t dir → (f.addTo t dir).1.get? l = (t.createDirectories dir).1.get? l := by
  have hkeeps := f.keeps_addTo t dir
  have hadded := f.addTo_added t dir
  generalize f.addTo t dir = q at hkeeps hadded ⊢
  cases hadded with
  | failed hfault => exact ⟨FileTree.createDirectories_settled t dir, fun _ _ => rfl⟩
  | wrote hmade hopened =>
    obtain ⟨-, hne, -, -, -⟩ := FileTree.openEnd_eq_ok hopened
    refine ⟨by rw [FileTree.createDirectories_again (by rw [hmade]) hkeeps], fun l hl => ?_⟩
    rw [FileTree.get?_put _ hne, if_neg hl, hmade]

end Fragment

theorem appendAll_append (dir : Path) (t : FileTree) (before after : List Fragment) :
    appendAll dir t (before ++ after) =
      ((appendAll dir (appendAll dir t before).1 after).1,
        (appendAll dir t before).2 ++ (appendAll dir (appendAll dir t before).1 after).2) := by
  induction before generalizing t with
  | nil => rfl
  | cons f before ih => simp only [List.cons_append, appendAll, ih]

@[simp] theorem length_appendAll (dir : Path) (t : FileTree) (fs : List Fragment) :
    (appendAll dir t fs).2.length = fs.length := by
  induction fs generalizing t with
  | nil => rfl
  | cons f fs ih => simp only [appendAll, List.length_cons, ih]

/-- A page that was written is that of its fragment's declaration, and a write stops because there is less room than
the fragment has bytes. -/
theorem appendAll_outcomes (dir : Path) (t : FileTree) (fs : List Fragment) :
    List.Forall₂ (fun f outcome => (∀ p, outcome = .ok p → p = path dir f.declarationName) ∧
      ∀ g, outcome = .error g → g.fault.isStop = true → ∃ n cause, f.room = .only n cause ∧ n < f.bytes.length ∧
        g = ⟨path dir f.declarationName, .unwritten cause⟩) fs (appendAll dir t fs).2 := by
  induction fs generalizing t with
  | nil => exact .nil
  | cons f fs ih =>
    refine .cons ⟨fun p hp => ?_, fun g hg hstop => ?_⟩ (ih _)
    · exact (appendOn_eq_ok (Prod.ext rfl hp)).1
    · obtain ⟨n, cause, hroom, hn, hfault, -⟩ := appendOn_eq_stop (Prod.ext rfl hg) hstop
      exact ⟨n, cause, hroom, hn, hfault⟩

/-- Every file holds what it held, followed by what was written to it. -/
theorem contentAt_appendAll (dir : Path) (t : FileTree) (fs : List Fragment) (l : Location) :
    (appendAll dir t fs).1.contentAt l =
      extended (t.contentAt l) (partsAt t dir l (parts fs (appendAll dir t fs).2)) := by
  induction fs generalizing t with
  | nil => rfl
  | cons f fs ih =>
    have hadded := f.addTo_added t dir
    simp only [appendAll]
    generalize f.addTo t dir = q at hadded ⊢
    cases hadded with
    | failed hfault =>
      have hgrown := FileTree.createDirectories_grown t dir
      rw [parts_cons_none (Fragment.part?_error hfault), ih, hgrown.contentAt, partsAt_congr hgrown.here]
    | wrote hmade hopened =>
      obtain ⟨hhere, hcontents⟩ := contentAt_opened hmade hopened (f.room.taken f.bytes)
      rw [parts_cons_some (f.part?_outcome dir), ih, hcontents l, partsAt_congr hhere]
      by_cases hl : f.place t dir = l
      · have hl' : l = t.written (path dir f.declarationName) := hl.symm
        rw [if_pos hl', ← extended_cons]
        simp [partsAt, hl]
      · have hl' : l ≠ t.written (path dir f.declarationName) := Ne.symm hl
        rw [if_neg hl']
        simp [partsAt, hl]

/-- Only pages to which something was written grow; elsewhere at most directories come up. -/
theorem appendAll_grownAt (dir : Path) (t : FileTree) (fs : List Fragment) :
    t.GrownAt (fun l => ∃ q ∈ parts fs (appendAll dir t fs).2, q.1.place t dir = l) (appendAll dir t fs).1 := by
  induction fs generalizing t with
  | nil => exact (FileTree.Grown.refl t).grownAt _
  | cons f fs ih =>
    have hstep := f.addTo_grownAt t dir
    -- a place in which a file grew is that of the first fragment or that of a later one
    refine (hstep.mono ?_).trans ((ih _).mono ?_)
    · rintro l ⟨hpart, rfl⟩
      obtain ⟨part, hpart⟩ := Option.isSome_iff_exists.1 hpart
      exact ⟨(f, part), by rw [appendAll, parts_cons_some hpart]; exact List.mem_cons_self, rfl⟩
    · rintro l ⟨q, hq, rfl⟩
      refine ⟨q, ?_, (q.1.place_congr hstep.here dir).symm⟩
      cases hpart : f.part? (f.addTo t dir).2 with
      | none => rwa [appendAll, parts_cons_none hpart]
      | some part =>
        rw [appendAll, parts_cons_some hpart]
        exact List.mem_cons_of_mem _ hq

/-- In the end the path of every fragment of which something was written leads to the file with it. -/
theorem appendAll_resolves (dir : Path) (t : FileTree) (fs : List Fragment) :
    ∀ q ∈ parts fs (appendAll dir t fs).2, ∃ bytes, (appendAll dir t fs).1.resolve (path dir q.1.declarationName) =
      .ok (q.1.place t dir, some (.file bytes)) := by
  induction fs generalizing t with
  | nil => simp [parts]
  | cons f fs ih =>
    have hhere := (f.addTo_grownAt t dir).here
    have hrest := ih (f.addTo t dir).1
    have hgrown := appendAll_grownAt dir (f.addTo t dir).1 fs
    simp only [Fragment.place_congr hhere] at hrest
    have hadded := f.addTo_added t dir
    intro q hq
    simp only [appendAll] at hq ⊢
    generalize f.addTo t dir = r at hadded hrest hgrown hq ⊢
    cases hadded with
    | failed hfault =>
      rw [parts_cons_none (Fragment.part?_error hfault)] at hq
      exact hrest q hq
    | @wrote t₁ old hmade hopened =>
      rw [parts_cons_some (f.part?_outcome dir)] at hq
      rcases List.mem_cons.1 hq with rfl | hq
      · -- the path leads to the file right after the write, and no later fragment takes it away
        obtain ⟨-, hne, hdir, hres, -⟩ := FileTree.openEnd_eq_ok hopened
        have hkeeps := FileTree.keeps_put_file hne hdir (old ++ f.room.taken f.bytes)
        have hres' := hkeeps.resolve hres
        rw [if_neg hdir, FileTree.get?_put _ hne, if_pos rfl] at hres'
        exact hgrown.resolve_file hres'
      · exact hrest q hq

theorem createDirectories_appendAll (hmade : (t.createDirectories dir).2 = none) (fs : List Fragment) :
    ((appendAll dir t fs).1.createDirectories dir).2 = none := by
  induction fs generalizing t with
  | nil => exact hmade
  | cons f fs ih => exact ih (Fragment.createDirectories_addTo hmade f)

/-- Fragments have the same outcomes and put the same into files whether or not the output directory is there. -/
theorem appendAll_created (hmade : (t.createDirectories dir).2 = none) (fs : List Fragment) :
    (appendAll dir (t.createDirectories dir).1 fs).2 = (appendAll dir t fs).2 ∧
      ∀ l, (appendAll dir (t.createDirectories dir).1 fs).1.contentAt l = (appendAll dir t fs).1.contentAt l := by
  cases fs with
  | nil => exact ⟨rfl, (FileTree.createDirectories_grown t dir).contentAt⟩
  | cons f fs =>
    simp only [appendAll, Fragment.addTo_created hmade]
    exact ⟨trivial, fun _ => trivial⟩

/-- Where the output directory cannot be made and making it changes nothing, every fragment fails there. -/
theorem appendAll_stuck {g : FileFault} (h : t.createDirectories dir = (t, some g)) (fs : List Fragment) :
    appendAll dir t fs = (t, List.replicate fs.length (.error ⟨dir, g⟩)) := by
  induction fs with
  | nil => rfl
  | cons f fs ih =>
    have hfault : (t.createDirectories dir).2 = some g := by rw [h]
    simp only [appendAll, Fragment.addTo_unmade hfault, h, ih, List.length_cons, List.replicate_succ]

/-- Once the output directory could not be made, it cannot be made later: the first fragment reports the first
fault, and all others report one and the same. -/
theorem appendAll_unmade {g : FileFault} (h : (t.createDirectories dir).2 = some g) :
    ∃ g', ∀ fs, (appendAll dir t fs).2 =
      (List.replicate fs.length (.error ⟨dir, g'⟩)).set 0 (.error ⟨dir, g⟩) := by
  obtain ⟨g', hagain⟩ := FileTree.createDirectories_failed h
  refine ⟨g', fun fs => ?_⟩
  cases fs with
  | nil => rfl
  | cons f fs =>
    simp only [appendAll, Fragment.addTo_unmade h, appendAll_stuck hagain, List.length_cons, List.replicate_succ,
      List.set_cons_zero]

/-- Two runs that put the same into the files of some places and add the same fragments, whatever faults they
report. -/
structure SameAdditions (places : Location → Prop) (r r' : FileTree × List (Except PathFault Path)) : Prop where
  contents : ∀ l, places l → r.1.contentAt l = r'.1.contentAt l
  outcomes : r.2.map Except.toOption = r'.2.map Except.toOption

/-- The rest of a run does not depend on a fragment that failed before it. -/
theorem appendAll_after_failed {g : PathFault} (h : (f.addTo t dir).2 = .error g) (hstop : g.fault.isStop = false)
    (fs : List Fragment) :
    SameAdditions (fun _ => True) (appendAll dir (f.addTo t dir).1 fs) (appendAll dir t fs) ∧
      ((t.createDirectories dir).2 = none →
        (appendAll dir (f.addTo t dir).1 fs).2 = (appendAll dir t fs).2) := by
  rw [Fragment.addTo_failed h hstop]
  cases hmade : (t.createDirectories dir).2 with
  | none =>
    obtain ⟨houtcomes, hcontents⟩ := appendAll_created hmade fs
    exact ⟨⟨fun l _ => hcontents l, by rw [houtcomes]⟩, fun _ => houtcomes⟩
  | some g' =>
    -- no fragment is ever added, so both runs leave the files as they are
    refine ⟨?_, fun hnone => by cases hnone⟩
    obtain ⟨g'', hagain⟩ := FileTree.createDirectories_failed hmade
    rw [appendAll_stuck hagain]
    have hgrown := FileTree.createDirectories_grown t dir
    cases fs with
    | nil => exact ⟨fun l _ => hgrown.contentAt l, rfl⟩
    | cons f' fs =>
      simp only [appendAll, Fragment.addTo_unmade hmade, appendAll_stuck hagain]
      exact ⟨fun _ _ => rfl, rfl⟩

/-- Two outcomes that are the same but for the fault of a page that could not be opened. -/
inductive Comparable : Except PathFault Path → Except PathFault Path → Prop where
  | same (outcome : Except PathFault Path) : Comparable outcome outcome
  | unopened {g g' : PathFault} (fault : g.fault.isStop = false) (fault' : g'.fault.isStop = false) :
      Comparable (.error g) (.error g')

theorem Comparable.toOption_eq {o o' : Except PathFault Path} (h : Comparable o o') : o.toOption = o'.toOption := by
  cases h <;> rfl

theorem Comparable.part?_eq {o o' : Except PathFault Path} (h : Comparable o o') (f : Fragment) :
    f.part? o = f.part? o' := by
  cases h with
  | same => rfl
  | unopened hfault hfault' => rw [Fragment.part?_error hfault, Fragment.part?_error hfault']

theorem parts_congr {os os' : List (Except PathFault Path)} (h : List.Forall₂ Comparable os os') (fs : List Fragment) :
    parts fs os = parts fs os' := by
  induction h generalizing fs with
  | nil => rfl
  | @cons o o' os os' hfirst hrest ih =>
    cases fs with
    | nil => rfl
    | cons f fs =>
      have hpart := hfirst.part?_eq f
      cases hnone : f.part? o with
      | none => rw [parts_cons_none hnone, parts_cons_none (hpart ▸ hnone), ih]
      | some part => rw [parts_cons_some hnone, parts_cons_some (hpart ▸ hnone), ih]

theorem map_toOption_congr {os os' : List (Except PathFault Path)} (h : List.Forall₂ Comparable os os') :
    os.map Except.toOption = os'.map Except.toOption := by
  induction h with
  | nil => rfl
  | cons hfirst hrest ih => rw [List.map_cons, List.map_cons, hfirst.toOption_eq, ih]

/-- What holds of the trees of two runs and is kept by every fragment relates all their outcomes. -/
theorem appendAll_related {Q : FileTree → FileTree → Prop} {S : Except PathFault Path → Except PathFault Path → Prop}
    (hstep : ∀ (f : Fragment) (t t' : FileTree), Q t t' →
      Q (f.addTo t dir).1 (f.addTo t' dir).1 ∧ S (f.addTo t dir).2 (f.addTo t' dir).2) (h : Q t t')
    (fs : List Fragment) : List.Forall₂ S (appendAll dir t fs).2 (appendAll dir t' fs).2 := by
  induction fs generalizing t t' with
  | nil => exact .nil
  | cons f fs ih =>
    obtain ⟨hnext, houtcome⟩ := hstep f t t' h
    exact .cons houtcome (ih hnext)

/-- Two trees in which the output directory is there. -/
structure BothMade (dir : Path) (t t' : FileTree) : Prop where
  left : t.createDirectories dir = (t, none)
  right : t'.createDirectories dir = (t', none)

theorem createDirectories_put_file (hmade : t.createDirectories dir = (t, none)) {l : Location} (hl : l ≠ [])
    (hdir : t.get? l ≠ some .directory) (bytes : List UInt8) :
    (t.put l (.file bytes)).createDirectories dir = (t.put l (.file bytes), none) := by
  refine FileTree.createDirectories_again (by rw [hmade]) ?_
  rw [hmade]
  exact FileTree.keeps_put_file hl hdir bytes

/-- In trees with the same directories the same pages can be opened. -/
theorem Fragment.addTo_sameDirectories (f : Fragment) {t t' : FileTree}
    (h : BothMade dir t t' ∧ t.SameDirectories t') :
    (BothMade dir (f.addTo t dir).1 (f.addTo t' dir).1 ∧ (f.addTo t dir).1.SameDirectories (f.addTo t' dir).1) ∧
      Comparable (f.addTo t dir).2 (f.addTo t' dir).2 := by
  obtain ⟨hmade, hsame⟩ := h
  -- a page is opened in both trees or in neither, but where it is in neither the faults may differ
  rcases hopened : t.openEnd (path dir f.declarationName) with g | ⟨l, old⟩
  · rcases hopened' : t'.openEnd (path dir f.declarationName) with g' | ⟨l, old⟩
    · rw [addTo_unopened hmade.left hopened, addTo_unopened hmade.right hopened']
      exact ⟨⟨hmade, hsame⟩, .unopened (FileTree.openEnd_isStop hopened) (FileTree.openEnd_isStop hopened')⟩
    · obtain ⟨old', hback⟩ := hsame.symm.openEnd hopened'
      cases hopened.symm.trans hback
  · obtain ⟨old', hopened'⟩ := hsame.openEnd hopened
    obtain ⟨-, hne, hdir, -, -⟩ := FileTree.openEnd_eq_ok hopened
    obtain ⟨-, -, hdir', -, -⟩ := FileTree.openEnd_eq_ok hopened'
    rw [addTo_opened hmade.left hopened, addTo_opened hmade.right hopened']
    exact ⟨⟨⟨createDirectories_put_file hmade.left hne hdir _, createDirectories_put_file hmade.right hne hdir' _⟩,
      hsame.put_file hne _ _⟩, .same _⟩

/-- In trees with files in the same places a page that cannot be opened has the same fault. -/
theorem Fragment.addTo_sameKinds (f : Fragment) {t t' : FileTree} (h : BothMade dir t t' ∧ t.SameKinds t') :
    (BothMade dir (f.addTo t dir).1 (f.addTo t' dir).1 ∧ (f.addTo t dir).1.SameKinds (f.addTo t' dir).1) ∧
      (f.addTo t dir).2 = (f.addTo t' dir).2 := by
  obtain ⟨hmade, hsame⟩ := h
  have hopened := hsame.openEnd (path dir f.declarationName)
  generalize hx : t.openEnd (path dir f.declarationName) = x at hopened
  generalize hy : t'.openEnd (path dir f.declarationName) = y at hopened
  cases hopened with
  | error g =>
    rw [addTo_unopened hmade.left hx, addTo_unopened hmade.right hy]
    exact ⟨⟨hmade, hsame⟩, rfl⟩
  | @ok q q' hplace =>
    obtain ⟨l, old⟩ := q
    obtain ⟨l', old'⟩ := q'
    obtain rfl : l' = l := hplace
    obtain ⟨-, hne, hdir, -, -⟩ := FileTree.openEnd_eq_ok hx
    obtain ⟨-, -, hdir', -, -⟩ := FileTree.openEnd_eq_ok hy
    rw [addTo_opened hmade.left hx, addTo_opened hmade.right hy]
    exact ⟨⟨⟨createDirectories_put_file hmade.left hne hdir _, createDirectories_put_file hmade.right hne hdir' _⟩,
      hsame.put_file hne _ _⟩, rfl⟩

theorem appendAll_comparable (h : BothMade dir t t' ∧ t.SameDirectories t') (fs : List Fragment) :
    List.Forall₂ Comparable (appendAll dir t fs).2 (appendAll dir t' fs).2 :=
  appendAll_related (Q := fun t t' => BothMade dir t t' ∧ t.SameDirectories t')
    (fun f _ _ h => f.addTo_sameDirectories h) h fs

theorem appendAll_outcomes_eq (h : BothMade dir t t' ∧ t.SameKinds t') (fs : List Fragment) :
    (appendAll dir t fs).2 = (appendAll dir t' fs).2 := by
  rw [← List.forall₂_eq_eq_eq]
  exact appendAll_related (Q := fun t t' => BothMade dir t t' ∧ t.SameKinds t')
    (fun f _ _ h => f.addTo_sameKinds h) h fs

/-- After a fragment whose write stopped, the same fragments are added as without it, and outside its page the files
hold the same. If the page had been there before, the outcomes are the same to the letter. -/
theorem appendAll_after_stopped {g : PathFault} (h : (f.addTo t dir).2 = .error g) (hstop : g.fault.isStop = true)
    (fs : List Fragment) :
    SameAdditions (· ≠ f.place t dir) (appendAll dir (f.addTo t dir).1 fs) (appendAll dir t fs) ∧
      ((t.contentAt (f.place t dir)).isSome →
        (appendAll dir (f.addTo t dir).1 fs).2 = (appendAll dir t fs).2) := by
  have hadded := f.addTo_added t dir
  generalize f.addTo t dir = q at h hadded ⊢
  cases hadded with
  | failed hfault =>
    obtain rfl := Except.error.inj h
    exact absurd (hfault.symm.trans hstop) (by simp)
  | @wrote t₁ old hmade hopened =>
    have hgrown := FileTree.createDirectories_grown t dir
    have hnone : (t.createDirectories dir).2 = none := by rw [hmade]
    have hcreated := appendAll_created hnone fs
    have hmade₁ := FileTree.createDirectories_again hnone (FileTree.Grown.refl _).keeps
    rw [hmade] at hgrown hcreated hmade₁
    obtain ⟨-, hne, hdir, -, -⟩ := FileTree.openEnd_eq_ok hopened
    -- the run without the fragment is that on `t₁`, in which only the output directory was made
    have hboth : BothMade dir t₁ (t₁.put (f.place t dir) (.file (old ++ f.room.taken f.bytes))) :=
      ⟨hmade₁, createDirectories_put_file hmade₁ hne hdir _⟩
    have hcomparable := appendAll_comparable ⟨hboth, FileTree.sameDirectories_put_file hne hdir _⟩ fs
    refine ⟨⟨fun l hl => ?_, ?_⟩, fun hfile => ?_⟩
    · rw [← hcreated.2 l, contentAt_appendAll, contentAt_appendAll, ← parts_congr hcomparable,
        FileTree.contentAt_put_file _ hne, if_neg hl]
      rfl
    · rw [← hcreated.1]
      exact (map_toOption_congr hcomparable).symm
    · obtain ⟨bytes, hbytes⟩ := Option.isSome_iff_exists.1 hfile
      rw [← hgrown.contentAt] at hbytes
      rw [← hcreated.1, appendAll_outcomes_eq ⟨hboth, FileTree.SameKinds.of_put_file hbytes _⟩ fs]

/-- What fragments added in turn come to. -/
structure Accumulated (dir : Path) (t : FileTree) (fs : List Fragment)
    (r : FileTree × List (Except PathFault Path)) : Prop where
  /-- Every fragment has an outcome: a fault, or the path of its page. The fault that a write stopped says that the
  disk took only so many of its bytes. -/
  outcomes : List.Forall₂ (fun f outcome => (∀ p, outcome = .ok p → p = path dir f.declarationName) ∧
    ∀ g, outcome = .error g → g.fault.isStop = true → ∃ n cause, f.room = .only n cause ∧ n < f.bytes.length ∧
      g = ⟨path dir f.declarationName, .unwritten cause⟩) fs r.2
  /-- Every file holds what it held, followed by what was written to it: all of a fragment that was added, and a first
  part of one whose write stopped. -/
  contents : ∀ l, r.1.contentAt l = extended (t.contentAt l) (partsAt t dir l (parts fs r.2))
  /-- The path of a fragment of which something was written leads to the file in its place. -/
  resolves : ∀ q ∈ parts fs r.2, ∃ bytes,
    r.1.resolve (path dir q.1.declarationName) = .ok (q.1.place t dir, some (.file bytes))
  /-- Where nothing was written, at most a directory comes up. -/
  frame : ∀ l, (∀ q ∈ parts fs r.2, q.1.place t dir ≠ l) →
    r.1.get? l = t.get? l ∨ t.get? l = none ∧ r.1.get? l = some .directory
  /-- A fragment that failed before its page was opened changed no file, and without it the run would have gone the
  same way. The outcomes are then the same to the letter if the output directory can be made. -/
  failed : ∀ before f after g, fs = before ++ f :: after → r.2[before.length]? = some (.error g) →
    g.fault.isStop = false →
    (appendAll dir t before).1.Grown (appendAll dir t (before ++ [f])).1 ∧
      SameAdditions (fun _ => True) (r.1, r.2.eraseIdx before.length) (appendAll dir t (before ++ after)) ∧
      ((t.createDirectories dir).2 = none → r.2.eraseIdx before.length = (appendAll dir t (before ++ after)).2)
  /-- Without a fragment whose write stopped, the run would have added the same others, and put the same into all
  files but its page. The outcomes are then the same to the letter if the page was there before. -/
  stopped : ∀ before f after g, fs = before ++ f :: after → r.2[before.length]? = some (.error g) →
    g.fault.isStop = true →
    SameAdditions (· ≠ f.place t dir) (r.1, r.2.eraseIdx before.length) (appendAll dir t (before ++ after)) ∧
      (((appendAll dir t before).1.contentAt (f.place t dir)).isSome →
        r.2.eraseIdx before.length = (appendAll dir t (before ++ after)).2)
  /-- If the output directory cannot be made, every fragment fails there, and all but the first with one fault. -/
  unmade : ∀ g, (t.createDirectories dir).2 = some g → ∃ g',
    r.2 = (List.replicate fs.length (.error ⟨dir, g'⟩)).set 0 (.error ⟨dir, g⟩)

/-- A run with a fragment in its middle: its outcome, and the outcomes of the others. -/
theorem appendAll_middle (dir : Path) (t : FileTree) (before : List Fragment) (f : Fragment) (after : List Fragment) :
    (appendAll dir t (before ++ f :: after)).2[before.length]? = some (f.addTo (appendAll dir t before).1 dir).2 ∧
      (appendAll dir t (before ++ f :: after)).2.eraseIdx before.length =
        (appendAll dir t before).2 ++ (appendAll dir (f.addTo (appendAll dir t before).1 dir).1 after).2 := by
  have hlength := length_appendAll dir t before
  rw [appendAll_append, ← hlength, List.getElem?_append_right le_rfl, List.eraseIdx_append_of_length_le le_rfl,
    Nat.sub_self]
  exact ⟨rfl, rfl⟩

theorem SameAdditions.append {places : Location → Prop} {r r' : FileTree × List (Except PathFault Path)}
    (h : SameAdditions places r r') (before : List (Except PathFault Path)) :
    SameAdditions places (r.1, before ++ r.2) (r'.1, before ++ r'.2) :=
  ⟨h.contents, by simp only [List.map_append, h.outcomes]⟩

/-- However the names of fragments are chosen and whichever of them fail, files only grow, by what was written to them
and in the order in which it was written. -/
theorem appendAll_accumulated (dir : Path) (t : FileTree) (fs : List Fragment) :
    Accumulated dir t fs (appendAll dir t fs) where
  outcomes := appendAll_outcomes dir t fs
  contents := contentAt_appendAll dir t fs
  resolves := appendAll_resolves dir t fs
  frame l hl := by
    rcases (appendAll_grownAt dir t fs).get? l with hsame | hnew | ⟨⟨q, hq, hplace⟩, -⟩
    · exact Or.inl hsame
    · exact Or.inr hnew
    · exact absurd hplace (hl q hq)
  failed before f after g hfs hg hstop := by
    subst hfs
    obtain ⟨houtcome, hothers⟩ := appendAll_middle dir t before f after
    have hf : (f.addTo (appendAll dir t before).1 dir).2 = .error g := Option.some.inj (houtcome.symm.trans hg)
    obtain ⟨hsame, hexact⟩ := appendAll_after_failed hf hstop after
    rw [hothers, appendAll_append dir t before after, appendAll_append dir t before (f :: after),
      appendAll_append dir t before [f]]
    refine ⟨appendOn_eq_error (Prod.ext rfl hf) hstop, hsame.append _, fun hmade => ?_⟩
    rw [hexact (createDirectories_appendAll hmade before)]
  stopped before f after g hfs hg hstop := by
    subst hfs
    obtain ⟨houtcome, hothers⟩ := appendAll_middle dir t before f after
    have hf : (f.addTo (appendAll dir t before).1 dir).2 = .error g := Option.some.inj (houtcome.symm.trans hg)
    obtain ⟨hsame, hexact⟩ := appendAll_after_stopped hf hstop after
    rw [f.place_congr (appendAll_grownAt dir t before).here] at hsame hexact
    rw [hothers, appendAll_append dir t before after, appendAll_append dir t before (f :: after)]
    refine ⟨hsame.append _, fun hfile => ?_⟩
    rw [hexact hfile]
  unmade g hg := by
    obtain ⟨g', hall⟩ := appendAll_unmade hg
    exact ⟨g', hall fs⟩

/-- A fragment that fails may change the fault of the next one: the first attempt to make the output directory makes
`a`, and the second one then gets as far as the file `x`. And one whose write stops leaves a part of itself. -/
theorem appendAll_later_fault :
    ((appendAll "a/../x/y" ⟨[(["x"], .file [102])], []⟩ [⟨"A", "t", .enough⟩, ⟨"A", "t", .enough⟩]).2 =
        [.error ⟨"a/../x/y", .occupied⟩, .error ⟨"a/../x/y", .notDirectory⟩] ∧
      (appendAll "a/../x/y" ⟨[(["x"], .file [102])], []⟩ [⟨"A", "t", .enough⟩]).2 =
        [.error ⟨"a/../x/y", .occupied⟩]) ∧
    (appendAll "d" ⟨[(["d"], .directory)], []⟩ [⟨"A", "text", .only 2 "No space left on device (os error 28)"⟩]).2 =
        [.error ⟨"d/A.md", .unwritten "No space left on device (os error 28)"⟩] ∧
      (appendAll "d" ⟨[(["d"], .directory)], []⟩
        [⟨"A", "text", .only 2 "No space left on device (os error 28)"⟩]).1.contentAt ["d", "A.md"] =
          some (encode "te".toList) := by
  decide +kernel

end Page

end SignatureDocs
