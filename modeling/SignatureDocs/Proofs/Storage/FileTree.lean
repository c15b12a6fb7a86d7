import Mathlib
import SignatureDocs.Storage.FileTree

/-!
What the operations on a tree of files change. A path leads to the place that its text says, adding to a file changes
that file and no other, and making directories changes no file. A fault says whether a file was opened: only that of a
write that stopped comes after it.
-/
namespace SignatureDocs

open SignatureDocs.Text

/-- Is it the fault of a write that stopped before its end? -/
def FileFault.isStop : FileFault → Bool
  | unwritten _ => true
  | _ => false

namespace Room

variable {room : Room} {bytes : List UInt8}

/-- A write stops if and only if there is less room than there are bytes. -/
theorem fault?_eq_some {f : FileFault} :
    room.fault? bytes = some f ↔ ∃ n cause, room = .only n cause ∧ n < bytes.length ∧ f = .unwritten cause := by
  cases room with
  | enough => simp [fault?]
  | only n cause => simp [fault?, eq_comm]

/-- A write that does not stop is taken whole. -/
theorem taken_of_fault?_eq_none (h : room.fault? bytes = none) : room.taken bytes = bytes := by
  cases room with
  | enough => rfl
  | only n cause =>
    have hle : bytes.length ≤ n := by simpa [fault?] using h
    exact List.take_of_length_le hle

end Room

namespace FileTree

variable {t t' : FileTree}

theorem lookup_filter_ne {l l' : Location} (h : l' ≠ l) (entries : List (Location × Entry)) :
    (entries.filter (·.1 != l)).lookup l' = entries.lookup l' := by
  induction entries with
  | nil => rfl
  | cons q rest ih =>
    obtain ⟨k, e⟩ := q
    by_cases hk : k = l
    · have hne : (l' == k) = false := by simpa [hk] using h
      rw [List.filter_cons_of_neg (by simpa using hk), List.lookup_cons, hne, ih]
    · rw [List.filter_cons_of_pos (by simpa using hk), List.lookup_cons, List.lookup_cons, ih]

theorem get?_put (t : FileTree) {l : Location} (hl : l ≠ []) (e : Entry) (l' : Location) :
    (t.put l e).get? l' = if l' = l then some e else t.get? l' := by
  unfold get? put
  by_cases hroot : l' = []
  · rw [if_pos hroot, if_pos hroot, if_neg (hroot ▸ Ne.symm hl)]
  · rw [if_neg hroot, if_neg hroot]
    by_cases heq : l' = l
    · rw [if_pos heq, heq, List.lookup_cons_self]
    · have hne : (l' == l) = false := by simpa using heq
      rw [if_neg heq, List.lookup_cons, hne]
      exact lookup_filter_ne heq t.entries

/-- The bytes of the file in a place, if there is one. -/
def contentAt (t : FileTree) (l : Location) : Option (List UInt8) :=
  match t.get? l with
  | some (.file bytes) => some bytes
  | _ => none

theorem contentAt_eq_some {l : Location} {bytes : List UInt8} :
    t.contentAt l = some bytes ↔ t.get? l = some (.file bytes) := by
  unfold contentAt
  split
  · next hget => rw [hget, Option.some.injEq, Option.some.injEq, Entry.file.injEq]
  · next hno => simpa using hno bytes

theorem contentAt_put_file (t : FileTree) {l : Location} (hl : l ≠ []) (bytes : List UInt8) (l' : Location) :
    (t.put l (.file bytes)).contentAt l' = if l' = l then some bytes else t.contentAt l' := by
  unfold contentAt
  rw [get?_put t hl]
  split_ifs <;> rfl

/-- One name leads where its text says; what stands there is a directory or what the tree has in that place. -/
theorem step_eq_ok {l l' : Location} {name : String} {e : Option Entry} (h : t.step l name = .ok (l', e)) :
    l' = l.enter name ∧ (e = some .directory ∨ e = t.get? l' ∧ l' ≠ []) := by
  unfold step at h
  unfold Location.enter
  split_ifs at h ⊢ with hdot hup hlong
  · obtain ⟨rfl, rfl⟩ := Prod.mk.inj (Except.ok.inj h)
    exact ⟨rfl, Or.inl rfl⟩
  · obtain ⟨rfl, rfl⟩ := Prod.mk.inj (Except.ok.inj h)
    exact ⟨rfl, Or.inl rfl⟩
  · obtain ⟨rfl, rfl⟩ := Prod.mk.inj (Except.ok.inj h)
    exact ⟨rfl, Or.inr ⟨rfl, by simp⟩⟩

/-- Only a directory can be left again: a name leads to one, or it is the last. -/
theorem follow_cons_eq_ok {l l' : Location} {name : String} {names : List String} {e : Option Entry}
    (h : t.follow l (some .directory) (name :: names) = .ok (l', e)) :
    ∃ l₁ e₁, t.step l name = .ok (l₁, e₁) ∧
      (e₁ = some .directory ∧ t.follow l₁ (some .directory) names = .ok (l', e) ∨
        names = [] ∧ l₁ = l' ∧ e₁ = e) := by
  rw [follow] at h
  split at h
  · simp at h
  · next l₁ e₁ hstep =>
    refine ⟨l₁, e₁, hstep, ?_⟩
    by_cases hdir : e₁ = some .directory
    · exact Or.inl ⟨hdir, hdir ▸ h⟩
    · cases names with
      | nil =>
        obtain ⟨hl, he⟩ := Prod.mk.inj (Except.ok.inj h)
        exact Or.inr ⟨rfl, hl, he⟩
      | cons =>
        rcases e₁ with _ | _ | _
        · simp [follow] at h
        · simp [follow] at h
        · exact absurd rfl hdir

theorem follow_eq_ok {l l' : Location} {names : List String} {e : Option Entry}
    (h : t.follow l (some .directory) names = .ok (l', e)) :
    l' = names.foldl Location.enter l ∧ (e = some .directory ∨ e = t.get? l' ∧ l' ≠ []) := by
  induction names generalizing l with
  | nil =>
    obtain ⟨rfl, rfl⟩ := Prod.mk.inj (Except.ok.inj h)
    exact ⟨rfl, Or.inl rfl⟩
  | cons name names ih =>
    obtain ⟨l₁, e₁, hstep, ⟨-, hrest⟩ | ⟨rfl, rfl, rfl⟩⟩ := follow_cons_eq_ok h
    · obtain ⟨rfl, -⟩ := step_eq_ok hstep
      exact ih hrest
    · exact step_eq_ok hstep

theorem resolve_eq_ok {p : Path} {l : Location} {e : Option Entry} (h : t.resolve p = .ok (l, e)) :
    l = t.written p ∧ (e = some .directory ∨ e = t.get? l ∧ l ≠ []) := by
  unfold resolve at h
  split at h
  · simp at h
  · exact follow_eq_ok h

theorem origin_congr (h : t'.here = t.here) (p : Path) : t'.origin p = t.origin p := by
  rw [origin, origin, h]

theorem written_congr (h : t'.here = t.here) (p : Path) : t'.written p = t.written p := by
  rw [written, written, origin_congr h]

theorem openEnd_of_resolve {p : Path} {l : Location} (h : t.resolve p = .ok (l, t.get? l))
    (hdir : t.get? l ≠ some .directory) : t.openEnd p = .ok (l, (t.contentAt l).getD []) := by
  unfold openEnd contentAt
  rw [h]
  rcases hget : t.get? l with _ | _ | _
  · rfl
  · rfl
  · exact absurd hget hdir

/-- A path that can be opened leads to the place that its text says, where no directory stands. -/
theorem openEnd_eq_ok {p : Path} {l : Location} {old : List UInt8} (h : t.openEnd p = .ok (l, old)) :
    l = t.written p ∧ l ≠ [] ∧ t.get? l ≠ some .directory ∧ t.resolve p = .ok (l, t.get? l) ∧
      old = (t.contentAt l).getD [] := by
  rcases hres : t.resolve p with f | ⟨l', e⟩
  · simp [openEnd, hres] at h
  · by_cases he : e = some .directory
    · simp [openEnd, hres, he] at h
    · obtain ⟨hl, hentry⟩ := resolve_eq_ok hres
      obtain ⟨rfl, hne⟩ := hentry.resolve_left he
      rw [openEnd_of_resolve hres he] at h
      obtain ⟨rfl, rfl⟩ := Prod.mk.inj (Except.ok.inj h)
      exact ⟨hl, hne, he, rfl, rfl⟩

/-- The way to a place is never cut short by a write. -/
theorem step_isStop {l : Location} {name : String} {f : FileFault} (h : t.step l name = .error f) :
    f.isStop = false := by
  unfold step at h
  split_ifs at h
  cases h
  rfl

theorem follow_isStop {l : Location} {e : Option Entry} {names : List String} {f : FileFault}
    (h : t.follow l e names = .error f) : f.isStop = false := by
  induction names generalizing l e with
  | nil => cases h
  | cons name names ih =>
    rcases e with _ | _ | _
    · cases h
      rfl
    · cases h
      rfl
    · rw [follow] at h
      split at h
      · next g hstep =>
        cases h
        exact step_isStop hstep
      · exact ih h

theorem pathFault?_isStop {p : Path} {f : FileFault} (h : pathFault? p = some f) : f.isStop = false := by
  unfold pathFault? at h
  split_ifs at h <;> cases h <;> rfl

theorem resolve_isStop {p : Path} {f : FileFault} (h : t.resolve p = .error f) : f.isStop = false := by
  unfold resolve at h
  split at h
  · next g hfault =>
    cases h
    exact pathFault?_isStop hfault
  · exact follow_isStop h

theorem openEnd_isStop {p : Path} {f : FileFault} (h : t.openEnd p = .error f) : f.isStop = false := by
  unfold openEnd at h
  split at h
  · next g hres =>
    cases h
    exact resolve_isStop hres
  · cases h
  · cases h
    rfl
  · cases h

theorem makeDirectory_isStop {start : Location} {names : List String} {f : FileFault}
    (h : t.makeDirectory start names = .error f) : f.isStop = false := by
  cases names with
  | nil =>
    cases h
    rfl
  | cons last above =>
    rw [makeDirectory] at h
    split at h
    · next g hfollow =>
      cases h
      exact follow_isStop hfollow
    · cases h
      rfl
    · cases h
      rfl
    · split_ifs at h
      · cases h
        rfl
      · split at h
        · next g hstep =>
          cases h
          exact step_isStop hstep
        · cases h
          rfl
        · cases h

theorem makeDirectories_isStop {start : Location} {names : List String} {f : FileFault}
    (h : (t.makeDirectories start names).2 = some f) : f.isStop = false := by
  fun_induction makeDirectories t start names with
  | case1 => cases h
  | case2 names hne t' hmake => cases h
  | case3 names hne hmake t' g hrec ih => exact ih (by rw [hrec]; exact h)
  | case4 names hne hmake t' hrec t'' hmake' ih => cases h
  | case5 names hne hmake t' hrec g hmake' ih =>
    split_ifs at h
    cases h
    exact makeDirectory_isStop hmake'
  | case6 names hne g hg hmake =>
    split_ifs at h
    cases h
    exact makeDirectory_isStop hmake

theorem createDirectories_isStop {p : Path} {f : FileFault} (h : (t.createDirectories p).2 = some f) :
    f.isStop = false := by
  unfold createDirectories at h
  split_ifs at h
  split at h
  · next g hfault =>
    cases h
    exact pathFault?_isStop hfault
  · exact makeDirectories_isStop h

/-- A tree to which at most directories were added. -/
structure Grown (t t' : FileTree) : Prop where
  here : t'.here = t.here
  get? : ∀ l, t'.get? l = t.get? l ∨ t.get? l = none ∧ t'.get? l = some .directory

namespace Grown

theorem refl (t : FileTree) : Grown t t := ⟨rfl, fun _ => Or.inl rfl⟩

theorem trans {t₁ t₂ t₃ : FileTree} (h : Grown t₁ t₂) (h' : Grown t₂ t₃) : Grown t₁ t₃ := by
  refine ⟨h'.here.trans h.here, fun l => ?_⟩
  rcases h'.get? l with heq | ⟨hnone, hdir⟩
  · rw [heq]
    exact h.get? l
  · rcases h.get? l with heq | ⟨-, hdir'⟩
    · exact Or.inr ⟨heq ▸ hnone, hdir⟩
    · rw [hdir'] at hnone
      cases hnone

theorem contentAt (h : Grown t t') (l : Location) : t'.contentAt l = t.contentAt l := by
  unfold FileTree.contentAt
  rcases h.get? l with heq | ⟨hnone, hdir⟩
  · rw [heq]
  · rw [hnone, hdir]

end Grown

theorem makeDirectory_eq_ok {start : Location} {last : String} {above : List String}
    (h : t.makeDirectory start (last :: above) = .ok t') :
    ∃ l l', t.follow start (some .directory) above.reverse = .ok (l, some .directory) ∧
      t.step l last = .ok (l', none) ∧ t' = t.put l' .directory := by
  rw [makeDirectory] at h
  split at h
  · simp at h
  · simp at h
  · simp at h
  · next l hfollow =>
    split_ifs at h
    split at h
    · simp at h
    · simp at h
    · next l' hstep => exact ⟨l, l', hfollow, hstep, (Except.ok.inj h).symm⟩

theorem makeDirectory_grown {start : Location} {names : List String}
    (h : t.makeDirectory start names = .ok t') : Grown t t' := by
  cases names with
  | nil => simp [makeDirectory] at h
  | cons last above =>
    obtain ⟨l, l', -, hstep, rfl⟩ := makeDirectory_eq_ok h
    obtain ⟨hget, hne⟩ := (step_eq_ok hstep).2.resolve_left (by simp)
    refine ⟨rfl, fun k => ?_⟩
    rw [get?_put t hne]
    split_ifs with hk
    · exact Or.inr ⟨hk ▸ hget.symm, rfl⟩
    · exact Or.inl rfl

theorem makeDirectories_grown (t : FileTree) (start : Location) (names : List String) :
    Grown t (t.makeDirectories start names).1 := by
  fun_induction makeDirectories t start names with
  | case1 => exact .refl t
  | case2 names hne t' hmake => exact makeDirectory_grown hmake
  | case3 names hne hmake t' f hrec ih => exact hrec ▸ ih
  | case4 names hne hmake t' hrec t'' hmake' ih =>
    rw [hrec] at ih
    exact ih.trans (makeDirectory_grown hmake')
  | case5 names hne hmake t' hrec f hmake' ih =>
    rw [hrec] at ih
    exact ih
  | case6 names hne f hf hmake => exact .refl t

theorem createDirectories_grown (t : FileTree) (p : Path) : Grown t (t.createDirectories p).1 := by
  unfold createDirectories
  split_ifs
  · exact .refl t
  · split
    · exact .refl t
    · exact makeDirectories_grown _ _ _

/-- A tree that has every directory of another one, and the same working directory. -/
structure Keeps (t t' : FileTree) : Prop where
  here : t'.here = t.here
  directory : ∀ l, t.get? l = some .directory → t'.get? l = some .directory

theorem Grown.keeps (h : Grown t t') : Keeps t t' := by
  refine ⟨h.here, fun l hl => ?_⟩
  rcases h.get? l with heq | ⟨hnone, -⟩
  · exact heq.trans hl
  · rw [hl] at hnone
    cases hnone

theorem keeps_put_file {l : Location} (hl : l ≠ []) (hdir : t.get? l ≠ some .directory) (bytes : List UInt8) :
    Keeps t (t.put l (.file bytes)) := by
  refine ⟨rfl, fun k hk => ?_⟩
  have hne : k ≠ l := fun heq => hdir (heq ▸ hk)
  rw [get?_put t hl, if_neg hne, hk]

/-- What a name leads to when directories stay: a directory still, or what the new tree has in the same place. -/
theorem Keeps.step (h : Keeps t t') {l l' : Location} {name : String} {e : Option Entry}
    (hstep : t.step l name = .ok (l', e)) :
    t'.step l name = .ok (l', if e = some .directory then some .directory else t'.get? l') := by
  unfold FileTree.step at hstep ⊢
  split_ifs at hstep with hdot hup hlong
  all_goals obtain ⟨rfl, rfl⟩ := Prod.mk.inj (Except.ok.inj hstep)
  · rw [if_pos hdot, if_pos rfl]
  · rw [if_neg hdot, if_pos hup, if_pos rfl]
  · rw [if_neg hdot, if_neg hup, if_neg hlong]
    split_ifs with hdir
    · rw [h.directory _ hdir]
    · rfl

theorem Keeps.follow (h : Keeps t t') {l l' : Location} {names : List String} {e : Option Entry}
    (hfollow : t.follow l (some .directory) names = .ok (l', e)) :
    t'.follow l (some .directory) names =
      .ok (l', if e = some .directory then some .directory else t'.get? l') := by
  induction names generalizing l with
  | nil =>
    obtain ⟨rfl, rfl⟩ := Prod.mk.inj (Except.ok.inj hfollow)
    rfl
  | cons name names ih =>
    obtain ⟨l₁, e₁, hstep, ⟨rfl, hrest⟩ | ⟨rfl, rfl, rfl⟩⟩ := follow_cons_eq_ok hfollow
    · rw [FileTree.follow, h.step hstep]
      exact ih hrest
    · rw [FileTree.follow, h.step hstep]
      rfl

theorem Keeps.resolve (h : Keeps t t') {p : Path} {l : Location} {e : Option Entry}
    (hres : t.resolve p = .ok (l, e)) :
    t'.resolve p = .ok (l, if e = some .directory then some .directory else t'.get? l) := by
  unfold FileTree.resolve at hres ⊢
  split at hres
  · simp at hres
  · rw [origin, h.here]
    exact h.follow hres

theorem leadsToDirectory_iff {start : Location} {names : List String} :
    t.leadsToDirectory start names ↔
      ∃ l, t.follow start (some .directory) names.reverse = .ok (l, some .directory) := by
  unfold leadsToDirectory
  split
  · next l hfollow => simp [hfollow]
  · next hno => simpa using fun l hl => hno l hl

theorem Keeps.leadsToDirectory (h : Keeps t t') {start : Location} {names : List String}
    (hlead : t.leadsToDirectory start names) : t'.leadsToDirectory start names := by
  obtain ⟨l, hfollow⟩ := leadsToDirectory_iff.1 hlead
  exact leadsToDirectory_iff.2 ⟨l, h.follow hfollow⟩

theorem follow_append {l : Location} {e : Option Entry} (names more : List String) :
    t.follow l e (names ++ more) = (t.follow l e names).bind fun q => t.follow q.1 q.2 more := by
  induction names generalizing l e with
  | nil => cases more <;> rfl
  | cons name names ih =>
    rcases e with _ | _ | _
    · rfl
    · rfl
    · rw [List.cons_append, follow, follow]
      split
      · rfl
      · exact ih

/-- The last name of a path to a directory is followed in a directory. -/
theorem leadsToDirectory_cons_iff {start : Location} {last : String} {above : List String} :
    t.leadsToDirectory start (last :: above) ↔
      ∃ l l', t.follow start (some .directory) above.reverse = .ok (l, some .directory) ∧
        t.step l last = .ok (l', some .directory) := by
  rw [leadsToDirectory_iff, List.reverse_cons]
  simp only [follow_append]
  constructor
  · rintro ⟨l', h⟩
    cases hfollow : t.follow start (some .directory) above.reverse with
    | error f => simp [hfollow, Except.bind] at h
    | ok q =>
      obtain ⟨l, e⟩ := q
      rcases e with _ | _ | _
      · simp [hfollow, Except.bind, follow] at h
      · simp [hfollow, Except.bind, follow] at h
      · refine ⟨l, l', rfl, ?_⟩
        simp only [hfollow, Except.bind, follow] at h
        split at h
        · simp at h
        · next hstep =>
          obtain ⟨rfl, rfl⟩ := Prod.mk.inj (Except.ok.inj h)
          exact hstep
  · rintro ⟨l, l', hfollow, hstep⟩
    exact ⟨l', by simp [hfollow, Except.bind, follow, hstep]⟩

theorem makeDirectory_leads {start : Location} {names : List String}
    (h : t.makeDirectory start names = .ok t') : t'.leadsToDirectory start names := by
  have hkeeps : Keeps t t' := (makeDirectory_grown h).keeps
  cases names with
  | nil => simp [makeDirectory] at h
  | cons last above =>
    obtain ⟨l, l', hfollow, hstep, rfl⟩ := makeDirectory_eq_ok h
    obtain ⟨-, hne⟩ := (step_eq_ok hstep).2.resolve_left (by simp)
    refine leadsToDirectory_cons_iff.2 ⟨l, l', hkeeps.follow hfollow, ?_⟩
    rw [hkeeps.step hstep, if_neg (by simp), get?_put t hne, if_pos rfl]

/-- Where nothing failed, the directory is there. -/
theorem makeDirectories_leads {start : Location} {names : List String}
    (h : (t.makeDirectories start names).2 = none) :
    (t.makeDirectories start names).1.leadsToDirectory start names := by
  fun_induction makeDirectories t start names with
  | case1 => rfl
  | case2 names hne t' hmake => exact makeDirectory_leads hmake
  | case3 names hne hmake t' f hrec ih => cases h
  | case4 names hne hmake t' hrec t'' hmake' ih => exact makeDirectory_leads hmake'
  | case5 names hne hmake t' hrec f hmake' ih => simpa using h
  | case6 names hne f hf hmake => simpa using h

theorem makeDirectory_of_leads {start : Location} {names : List String} (h : t.leadsToDirectory start names) :
    t.makeDirectory start names = .error .occupied := by
  cases names with
  | nil => rfl
  | cons last above =>
    obtain ⟨l, l', hfollow, hstep⟩ := leadsToDirectory_cons_iff.1 h
    simp [makeDirectory, hfollow, hstep]

/-- A directory that is there is left as it is. -/
theorem makeDirectories_of_leads {start : Location} {names : List String} (h : t.leadsToDirectory start names) :
    t.makeDirectories start names = (t, none) := by
  rw [makeDirectories]
  split_ifs with hnil
  · rfl
  · simp only [makeDirectory_of_leads h]

/-- Making a directory again changes nothing, as long as no directory goes away in between. -/
theorem createDirectories_again {p : Path} (h : (t.createDirectories p).2 = none)
    (hkeeps : Keeps (t.createDirectories p).1 t') : t'.createDirectories p = (t', none) := by
  have hhere : t'.here = t.here := hkeeps.here.trans (createDirectories_grown t p).here
  unfold createDirectories at h hkeeps ⊢
  split_ifs at h hkeeps ⊢
  · rfl
  · cases hfault : pathFault? p with
    | some f => simp [hfault] at h
    | none =>
      simp only [hfault] at h hkeeps ⊢
      rw [origin_congr hhere]
      exact makeDirectories_of_leads (hkeeps.leadsToDirectory (makeDirectories_leads h))

/-- A path can be opened as long as directories stay and none comes up in its place. -/
theorem Keeps.openEnd (h : Keeps t t') {p : Path} {l : Location} {old : List UInt8}
    (hopen : t.openEnd p = .ok (l, old)) (hdir : t'.get? l ≠ some .directory) :
    t'.openEnd p = .ok (l, (t'.contentAt l).getD []) := by
  obtain ⟨-, -, hdir', hres, -⟩ := openEnd_eq_ok hopen
  have hres' := h.resolve hres
  rw [if_neg hdir'] at hres'
  exact openEnd_of_resolve hres' hdir

/-- A tree to which directories were added, and where the files in some places grew at their ends. -/
structure GrownAt (places : Location → Prop) (t t' : FileTree) : Prop where
  here : t'.here = t.here
  get? : ∀ l, t'.get? l = t.get? l ∨ (t.get? l = none ∧ t'.get? l = some .directory) ∨
    places l ∧ t.get? l ≠ some .directory ∧ ∃ more, t'.get? l = some (.file ((t.contentAt l).getD [] ++ more))

theorem Grown.grownAt (h : Grown t t') (places : Location → Prop) : GrownAt places t t' := by
  refine ⟨h.here, fun l => ?_⟩
  rcases h.get? l with heq | hnew
  · exact Or.inl heq
  · exact Or.inr (Or.inl hnew)

namespace GrownAt

variable {places places' : Location → Prop}

theorem mono (h : GrownAt places t t') (hplaces : ∀ l, places l → places' l) : GrownAt places' t t' := by
  refine ⟨h.here, fun l => ?_⟩
  rcases h.get? l with heq | hnew | ⟨hl, hgrew⟩
  · exact Or.inl heq
  · exact Or.inr (Or.inl hnew)
  · exact Or.inr (Or.inr ⟨hplaces l hl, hgrew⟩)

theorem trans {t₁ t₂ t₃ : FileTree} (h : GrownAt places t₁ t₂) (h' : GrownAt places t₂ t₃) :
    GrownAt places t₁ t₃ := by
  refine ⟨h'.here.trans h.here, fun l => ?_⟩
  rcases h'.get? l with heq | ⟨hnone, hdir⟩ | ⟨hl, hne, more, hmore⟩
  · rw [heq]
    exact h.get? l
  · -- nothing was there, so nothing had been made there before
    rcases h.get? l with heq' | ⟨-, hdir'⟩ | ⟨-, -, more', hmore'⟩
    · exact Or.inr (Or.inl ⟨heq' ▸ hnone, hdir⟩)
    · rw [hdir'] at hnone
      cases hnone
    · rw [hmore'] at hnone
      cases hnone
  · refine Or.inr (Or.inr ⟨hl, ?_⟩)
    rcases h.get? l with heq' | ⟨-, hdir'⟩ | ⟨-, hne', more', hmore'⟩
    · rw [heq'] at hne
      refine ⟨hne, more, ?_⟩
      rw [hmore, contentAt, contentAt, heq']
    · exact absurd hdir' hne
    · refine ⟨hne', more' ++ more, ?_⟩
      rw [hmore, contentAt, hmore', ← List.append_assoc]
      rfl

theorem keeps (h : GrownAt places t t') : Keeps t t' := by
  refine ⟨h.here, fun l hl => ?_⟩
  rcases h.get? l with heq | ⟨hnone, -⟩ | ⟨-, hne, -⟩
  · exact heq.trans hl
  · rw [hl] at hnone
    cases hnone
  · exact absurd hl hne

/-- A file stays a file, and keeps what it has at its beginning. -/
theorem contentAt_of_some (h : GrownAt places t t') {l : Location} {bytes : List UInt8}
    (hl : t.contentAt l = some bytes) : ∃ more, t'.contentAt l = some (bytes ++ more) := by
  have hget : t.get? l = some (.file bytes) := contentAt_eq_some.1 hl
  rcases h.get? l with heq | ⟨hnone, -⟩ | ⟨-, -, more, hmore⟩
  · exact ⟨[], by rw [List.append_nil, contentAt_eq_some, heq, hget]⟩
  · rw [hget] at hnone
    cases hnone
  · refine ⟨more, ?_⟩
    rw [hl] at hmore
    exact contentAt_eq_some.2 hmore

/-- Only in the given places can a file change or come up. -/
theorem of_contentAt_ne (h : GrownAt places t t') {l : Location} (hne : t'.contentAt l ≠ t.contentAt l) : places l := by
  rcases h.get? l with heq | ⟨hnone, hdir⟩ | ⟨hl, -⟩
  · exact absurd (by rw [contentAt, contentAt, heq]) hne
  · exact absurd (by rw [contentAt, contentAt, hnone, hdir]) hne
  · exact hl

end GrownAt

theorem put_file_grownAt {l : Location} (hl : l ≠ []) (hdir : t.get? l ≠ some .directory) (more : List UInt8) :
    GrownAt (fun l' => l' = l) t (t.put l (.file ((t.contentAt l).getD [] ++ more))) := by
  refine ⟨rfl, fun l' => ?_⟩
  rw [get?_put t hl]
  split_ifs with heq
  · subst heq
    exact Or.inr (Or.inr ⟨rfl, hdir, more, rfl⟩)
  · exact Or.inl rfl

/-- A path that was opened leads to its file as long as directories and files stay. -/
theorem GrownAt.resolve_file {places : Location → Prop} (h : GrownAt places t t') {p : Path} {l : Location}
    {bytes : List UInt8} (hres : t.resolve p = .ok (l, some (.file bytes))) :
    ∃ bytes', t'.resolve p = .ok (l, some (.file bytes')) := by
  obtain ⟨-, hentry⟩ := resolve_eq_ok hres
  obtain ⟨hget, -⟩ := hentry.resolve_left (by simp)
  obtain ⟨more, hmore⟩ := h.contentAt_of_some (contentAt_eq_some.2 hget.symm)
  have hres' := h.keeps.resolve hres
  rw [if_neg (by simp), contentAt_eq_some.1 hmore] at hres'
  exact ⟨_, hres'⟩

/-- A path that leads to a directory leads through one. -/
theorem leadsToDirectory_above {start : Location} {names : List String} (h : t.leadsToDirectory start names) :
    t.leadsToDirectory start (above names) := by
  induction names with
  | nil => exact h
  | cons last rest ih =>
    obtain ⟨l, l', hfollow, hstep⟩ := leadsToDirectory_cons_iff.1 h
    have hrest : t.leadsToDirectory start rest := leadsToDirectory_iff.2 ⟨l, hfollow⟩
    by_cases hdot : last = "."
    · -- a dot is passed over, so the directory above is that of the other names
      have habove : above (last :: rest) = above rest := by simp [above, hdot]
      rw [habove]
      exact ih hrest
    · have habove : above (last :: rest) = rest := by simp [above, hdot]
      rw [habove]
      exact hrest

theorem makeDirectory_above {start : Location} {names : List String} (h : t.makeDirectory start names = .ok t') :
    t.leadsToDirectory start (above names) := by
  cases names with
  | nil => simp [makeDirectory] at h
  | cons last rest =>
    obtain ⟨l, l', hfollow, hstep, -⟩ := makeDirectory_eq_ok h
    have hdot : last ≠ "." := by
      rintro rfl
      simp [step] at hstep
    have habove : above (last :: rest) = rest := by simp [above, hdot]
    rw [habove]
    exact leadsToDirectory_iff.2 ⟨l, hfollow⟩

/-- Where a directory cannot be made, trying again neither makes it nor changes anything. The fault may be another,
since the first attempt may have opened a part of the way. -/
theorem makeDirectories_failed {start : Location} {names : List String} {f : FileFault}
    (h : (t.makeDirectories start names).2 = some f) :
    ¬ (t.makeDirectories start names).1.leadsToDirectory start names ∧
      ∃ g, (t.makeDirectories start names).1.makeDirectories start names =
        ((t.makeDirectories start names).1, some g) := by
  fun_induction makeDirectories t start names with
  | case1 => cases h
  | case2 names hne t' hmake => cases h
  | case3 names hne hmake t' g hrec ih =>
    -- what is above the directory cannot be made, so neither can the directory
    rw [hrec] at ih
    obtain ⟨hno, g', hagain⟩ := ih h
    have hleads : ¬ t'.leadsToDirectory start names := fun hleads => hno (leadsToDirectory_above hleads)
    refine ⟨hleads, ?_⟩
    rw [makeDirectories, dif_neg hne]
    cases hmake' : t'.makeDirectory start names with
    | ok t'' => exact absurd (makeDirectory_above hmake') hno
    | error e =>
      cases e with
      | notFound => exact ⟨g', by simp only [hagain]⟩
      | _ => exact ⟨_, by simp only [if_neg hleads]; rfl⟩
  | case4 names hne hmake t' hrec t'' hmake' ih => cases h
  | case5 names hne hmake t' hrec e hmake' ih =>
    have hleads : ¬ t'.leadsToDirectory start names := by
      intro hleads
      simp [hleads] at h
    have habove : t'.makeDirectories start (above names) = (t', none) := by
      apply makeDirectories_of_leads
      have hmade : (t.makeDirectories start (above names)).2 = none := by rw [hrec]
      simpa only [hrec] using makeDirectories_leads hmade
    refine ⟨hleads, e, ?_⟩
    rw [makeDirectories, dif_neg hne, hmake']
    cases e with
    | notFound => simp only [habove, hmake', if_neg hleads]
    | _ => simp only [if_neg hleads]
  | case6 names hne e he hmake =>
    have hleads : ¬ t.leadsToDirectory start names := by
      intro hleads
      simp [hleads] at h
    refine ⟨hleads, e, ?_⟩
    rw [makeDirectories, dif_neg hne, hmake]
    simp [hleads]

theorem createDirectories_failed {p : Path} {f : FileFault} (h : (t.createDirectories p).2 = some f) :
    ∃ g, (t.createDirectories p).1.createDirectories p = ((t.createDirectories p).1, some g) := by
  have hhere := (createDirectories_grown t p).here
  unfold createDirectories at h hhere ⊢
  by_cases hempty : p = ""
  · simp [hempty] at h
  · simp only [if_neg hempty] at h hhere ⊢
    cases hfault : pathFault? p with
    | some g => exact ⟨g, rfl⟩
    | none =>
      simp only [hfault] at h hhere ⊢
      rw [origin_congr hhere]
      exact (makeDirectories_failed h).2

/-- Whether or not a directory could be made, making it again changes nothing. -/
theorem createDirectories_settled (t : FileTree) (p : Path) :
    ((t.createDirectories p).1.createDirectories p).1 = (t.createDirectories p).1 := by
  cases h : (t.createDirectories p).2 with
  | none => rw [createDirectories_again h (Grown.refl _).keeps]
  | some f =>
    obtain ⟨g, hagain⟩ := createDirectories_failed h
    rw [hagain]

end FileTree

end SignatureDocs
