import SignatureDocs.Proofs.Except
import SignatureDocs.Proofs.Storage.FileTree

/-!
Trees of files that differ only in some entries. The same paths lead to the same places in two of them as long as no
file stands where the other one has a directory, and with the same faults if files stand in the same places.
-/
namespace SignatureDocs

/-- Two entries that are both files or both directories. -/
inductive Entry.SameKind : Entry → Entry → Prop where
  | file (bytes bytes' : List UInt8) : SameKind (.file bytes) (.file bytes')
  | directory : SameKind .directory .directory

theorem Entry.SameKind.refl (e : Entry) : e.SameKind e := by
  cases e with
  | file bytes => exact .file bytes bytes
  | directory => exact .directory

namespace FileTree

variable {t t' : FileTree}

/-- Two trees with the same directories. -/
structure SameDirectories (t t' : FileTree) : Prop where
  forth : Keeps t t'
  back : Keeps t' t

namespace SameDirectories

theorem symm (h : SameDirectories t t') : SameDirectories t' t := ⟨h.back, h.forth⟩

/-- A path that can be opened in one of the trees can be opened in the other, at the same place. -/
theorem openEnd (h : SameDirectories t t') {p : Path} {l : Location} {old : List UInt8}
    (hopen : t.openEnd p = .ok (l, old)) : ∃ old', t'.openEnd p = .ok (l, old') := by
  obtain ⟨-, -, hdir, -, -⟩ := openEnd_eq_ok hopen
  exact ⟨_, h.forth.openEnd hopen fun hdir' => hdir (h.back.directory l hdir')⟩

theorem put_file (h : SameDirectories t t') {l : Location} (hl : l ≠ []) (bytes bytes' : List UInt8) :
    SameDirectories (t.put l (.file bytes)) (t'.put l (.file bytes')) := by
  refine ⟨⟨h.forth.here, fun l' hl' => ?_⟩, ⟨h.back.here, fun l' hl' => ?_⟩⟩
  · rw [get?_put _ hl] at hl' ⊢
    split_ifs at hl' ⊢
    · cases hl'
    · exact h.forth.directory l' hl'
  · rw [get?_put _ hl] at hl' ⊢
    split_ifs at hl' ⊢
    · cases hl'
    · exact h.back.directory l' hl'

end SameDirectories

/-- A file where no directory stands makes no difference to the directories. -/
theorem sameDirectories_put_file {l : Location} (hl : l ≠ []) (hdir : t.get? l ≠ some .directory)
    (bytes : List UInt8) : SameDirectories t (t.put l (.file bytes)) := by
  refine ⟨keeps_put_file hl hdir bytes, rfl, fun l' hl' => ?_⟩
  rw [get?_put t hl] at hl'
  split_ifs at hl'
  · cases hl'
  · exact hl'

/-- Two trees with related entries in all places. -/
structure Related (R : Entry → Entry → Prop) (t t' : FileTree) : Prop where
  here : t'.here = t.here
  entries : ∀ l, Option.Rel R (t.get? l) (t'.get? l)

/-- Where two ways lead: to the same place, with related entries in it. -/
def SamePlace (R : Entry → Entry → Prop) (q q' : Location × Option Entry) : Prop :=
  q'.1 = q.1 ∧ Option.Rel R q.2 q'.2

namespace Related

variable {R : Entry → Entry → Prop}

theorem refl (hR : ∀ e, R e e) (t : FileTree) : Related R t t := by
  refine ⟨rfl, fun l => ?_⟩
  cases t.get? l with
  | none => exact .none
  | some e => exact .some (hR e)

theorem step (h : Related R t t') (hdir : R .directory .directory) (l : Location) (name : String) :
    SameOutcome (SamePlace R) (t.step l name) (t'.step l name) := by
  unfold FileTree.step
  split_ifs
  · exact .ok ⟨rfl, .some hdir⟩
  · exact .ok ⟨rfl, .some hdir⟩
  · exact .error _
  · exact .ok ⟨rfl, h.entries _⟩

/-- Names lead the same way as long as no file is related to a directory. -/
theorem follow (h : Related R t t') (hR : ∀ e e', R e e' → e.SameKind e') (hdir : R .directory .directory)
    (l : Location) {e e' : Option Entry} (he : Option.Rel R e e') (names : List String) :
    SameOutcome (SamePlace R) (t.follow l e names) (t'.follow l e' names) := by
  induction names generalizing l e e' with
  | nil => exact .ok ⟨rfl, he⟩
  | cons name names ih =>
    cases he with
    | none => exact .error _
    | some hrelated =>
      cases hR _ _ hrelated with
      | file bytes bytes' => exact .error _
      | directory =>
        rw [FileTree.follow, FileTree.follow]
        have hstep := h.step hdir l name
        generalize t.step l name = x, t'.step l name = y at hstep
        cases hstep with
        | error f => exact .error f
        | @ok q q' hplace =>
          obtain ⟨l', e'⟩ := q'
          obtain ⟨rfl, he'⟩ := hplace
          exact ih _ he'

theorem resolve (h : Related R t t') (hR : ∀ e e', R e e' → e.SameKind e') (hdir : R .directory .directory)
    (p : Path) : SameOutcome (SamePlace R) (t.resolve p) (t'.resolve p) := by
  unfold FileTree.resolve
  rw [origin_congr h.here]
  cases pathFault? p with
  | some f => exact .error f
  | none => exact h.follow hR hdir _ (.some hdir) _

end Related

/-- Two trees with the same directories and with files in the same places. -/
abbrev SameKinds (t t' : FileTree) : Prop := Related Entry.SameKind t t'

namespace SameKinds

theorem openEnd (h : SameKinds t t') (p : Path) :
    SameOutcome (fun q q' => q'.1 = q.1) (t.openEnd p) (t'.openEnd p) := by
  have hresolve := h.resolve (fun _ _ hkind => hkind) .directory p
  unfold FileTree.openEnd
  generalize t.resolve p = x, t'.resolve p = y at hresolve
  cases hresolve with
  | error f => exact .error f
  | @ok q q' hplace =>
    obtain ⟨l, e⟩ := q
    obtain ⟨l', e'⟩ := q'
    obtain ⟨rfl, hentry⟩ := hplace
    cases hentry with
    | none => exact .ok rfl
    | some hkind =>
      cases hkind with
      | file bytes bytes' => exact .ok rfl
      | directory => exact .error _

theorem put_file (h : SameKinds t t') {l : Location} (hl : l ≠ []) (bytes bytes' : List UInt8) :
    SameKinds (t.put l (.file bytes)) (t'.put l (.file bytes')) := by
  refine ⟨h.here, fun l' => ?_⟩
  rw [get?_put _ hl, get?_put _ hl]
  split_ifs
  · exact .some (.file bytes bytes')
  · exact h.entries l'

/-- A file in the place of another one makes no difference to the kinds. -/
theorem of_put_file {l : Location} {bytes : List UInt8} (h : t.contentAt l = some bytes) (bytes' : List UInt8) :
    SameKinds t (t.put l (.file bytes')) := by
  have hget : t.get? l = some (.file bytes) := contentAt_eq_some.1 h
  have hl : l ≠ [] := by
    rintro rfl
    cases hget
  refine ⟨rfl, fun l' => ?_⟩
  rw [get?_put t hl]
  split_ifs with heq
  · rw [heq, hget]
    exact .some (.file bytes bytes')
  · exact (Related.refl Entry.SameKind.refl t).entries l'

end SameKinds

end FileTree

end SignatureDocs
