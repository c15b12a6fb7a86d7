import SignatureDocs.Outline.OfTree
import SignatureDocs.Proofs.Grammar.Nesting

/-!
The declarations of a file as a forest, and the table that numbers the forest in the order of the text. An
outline is built from one declaration after another with a stack of those that are still open; on well nested
trees the result is the table of the forest.
-/
namespace SignatureDocs

open SignatureDocs.Text SignatureDocs.Grammar

/-- A declaration together with the declarations inside it. -/
inductive Nest where
  | mk (declaration : Declaration) (inside : List Nest)

namespace Nest

def declaration : Nest → Declaration
  | mk d _ => d

mutual

/-- The number of declarations in a nest. -/
def size : Nest → Nat
  | mk _ inside => sizeAll inside + 1

def sizeAll : List Nest → Nat
  | [] => 0
  | n :: ns => size n + sizeAll ns

end

/-- The numbers of the outermost declarations of a forest whose first declaration is number `k`. -/
def numbers (k : Nat) : List Nest → List Nat
  | [] => []
  | n :: ns => k :: numbers (k + n.size) ns

mutual

/-- The rows of a nest whose outermost declaration is number `k`. -/
def rows (k : Nat) : Nest → List Declaration
  | mk d inside => d.adopt (numbers (k + 1) inside) :: rowsAll (k + 1) inside

def rowsAll (k : Nat) : List Nest → List Declaration
  | [] => []
  | n :: ns => rows k n ++ rowsAll (k + n.size) ns

end

mutual

theorem length_rows (k : Nat) : (n : Nest) → (rows k n).length = n.size
  | mk d inside => by rw [rows, List.length_cons, length_rowsAll, size]

theorem length_rowsAll (k : Nat) : (ns : List Nest) → (rowsAll k ns).length = sizeAll ns
  | [] => rfl
  | n :: ns => by rw [rowsAll, List.length_append, length_rows, length_rowsAll, sizeAll]

end

theorem numbers_append (k : Nat) (ns ms : List Nest) :
    numbers k (ns ++ ms) = numbers k ns ++ numbers (k + sizeAll ns) ms := by
  induction ns generalizing k with
  | nil => simp [numbers, sizeAll]
  | cons n ns ih => rw [List.cons_append, numbers, ih, numbers, sizeAll, List.cons_append, Nat.add_assoc]

theorem rowsAll_append (k : Nat) (ns ms : List Nest) :
    rowsAll k (ns ++ ms) = rowsAll k ns ++ rowsAll (k + sizeAll ns) ms := by
  induction ns generalizing k with
  | nil => simp [rowsAll, sizeAll]
  | cons n ns ih => rw [List.cons_append, rowsAll, ih, rowsAll, sizeAll, List.append_assoc, Nat.add_assoc]

mutual

/-- The declarations of a tree. A class without a name leaves no trace, and what is declared inside it counts
as declared where it stands. -/
def ofTree (source : List Char) : Tree → List Nest
  | .node part span children =>
    match declaration? source (.node part span children) with
    | some d => [mk d (ofTrees source children)]
    | none => ofTrees source children

def ofTrees (source : List Char) : List Tree → List Nest
  | [] => []
  | t :: ts => ofTree source t ++ ofTrees source ts

end

end Nest

@[simp] theorem Declaration.adopt_nil (d : Declaration) : d.adopt [] = d := by
  simp [Declaration.adopt]

theorem Declaration.adopt_adopt (d : Declaration) (ks ls : List Nat) :
    (d.adopt ks).adopt ls = d.adopt (ks ++ ls) := by
  simp [Declaration.adopt]

namespace Outline

/-- Adds the rows of a forest: inside the declaration of the given number, or outermost. -/
def graft (o : Outline) (parent : Option Nat) (ns : List Nest) : Outline :=
  let k := o.declarations.length
  match parent with
  | none => ⟨o.declarations ++ Nest.rowsAll k ns, o.roots ++ Nest.numbers k ns⟩
  | some p => ⟨o.declarations.modify p (·.adopt (Nest.numbers k ns)) ++ Nest.rowsAll k ns, o.roots⟩

theorem graft_nil (o : Outline) (parent : Option Nat) : o.graft parent [] = o := by
  cases parent with
  | none => simp [graft, Nest.rowsAll, Nest.numbers]
  | some p =>
    have hid : (fun d : Declaration => d.adopt []) = id := funext Declaration.adopt_nil
    simp only [graft, Nest.rowsAll, Nest.numbers, hid, List.modify_id, List.append_nil]

theorem length_graft (o : Outline) (parent : Option Nat) (ns : List Nest) :
    (o.graft parent ns).declarations.length = o.declarations.length + Nest.sizeAll ns := by
  cases parent <;> simp [graft, Nest.length_rowsAll]

theorem modify_append_left {α : Type} (f : α → α) {xs : List α} (ys : List α) {p : Nat}
    (hp : p < xs.length) : (xs ++ ys).modify p f = xs.modify p f ++ ys := by
  induction xs generalizing p with
  | nil => simp at hp
  | cons x xs ih =>
    cases p with
    | zero => simp
    | succ p =>
      have hlt : p < xs.length := by simpa using hp
      simp [ih hlt]

/-- Two forests one after another are grafted like one. -/
theorem graft_graft (o : Outline) {parent : Option Nat} (hp : ∀ p ∈ parent, p < o.declarations.length)
    (ns ms : List Nest) : (o.graft parent ns).graft parent ms = o.graft parent (ns ++ ms) := by
  have hlen := length_graft o parent ns
  cases parent with
  | none =>
    rw [graft, hlen]
    simp [graft, Nest.rowsAll_append, Nest.numbers_append, List.append_assoc]
  | some p =>
    have hlt : p < o.declarations.length := hp p rfl
    rw [graft, hlen]
    simp only [graft, Nest.rowsAll_append, Nest.numbers_append]
    rw [modify_append_left _ _ (by simpa using hlt), List.modify_modify_eq, List.append_assoc]
    congr 3
    funext d
    exact d.adopt_adopt _ _

theorem modify_append_last {α : Type} (f : α → α) (xs : List α) (x : α) {p : Nat} (hp : p = xs.length) :
    (xs ++ [x]).modify p f = xs ++ [f x] := by
  subst hp
  rw [List.modify_eq_take_cons_drop (by simp)]
  simp

theorem add_none (o : Outline) (d : Declaration) :
    o.add d none = ⟨o.declarations ++ [d], o.roots ++ [o.declarations.length]⟩ := rfl

theorem add_some (o : Outline) (d : Declaration) {p : Nat} (hp : p < o.declarations.length) :
    o.add d (some p) =
      ⟨o.declarations.modify p (·.adopt [o.declarations.length]) ++ [d], o.roots⟩ := by
  have hguard : (some p).filter (fun q => decide (q < (o.declarations ++ [d]).length)) = some p := by
    simp
    omega
  unfold add
  dsimp only
  rw [hguard, ← modify_append_left _ _ hp]

theorem length_add (o : Outline) (d : Declaration) (parent : Option Nat) :
    (o.add d parent).declarations.length = o.declarations.length + 1 := by
  unfold add
  dsimp only
  split <;> simp

/-- A declaration and then what is inside it make one nest. -/
theorem add_graft (o : Outline) {parent : Option Nat} (hp : ∀ p ∈ parent, p < o.declarations.length)
    (d : Declaration) (ns : List Nest) :
    (o.add d parent).graft (some o.declarations.length) ns = o.graft parent [.mk d ns] := by
  cases parent with
  | none =>
    rw [add_none]
    simp only [graft, Nest.rowsAll, Nest.rows, Nest.numbers, List.length_append, List.length_singleton,
      List.append_nil]
    rw [modify_append_last _ _ _ rfl, List.append_assoc]
    rfl
  | some p =>
    have hlt : p < o.declarations.length := hp p rfl
    rw [add_some o d hlt]
    simp only [graft, Nest.rowsAll, Nest.rows, Nest.numbers, List.length_append, List.length_singleton,
      List.append_nil, List.length_modify]
    rw [modify_append_last _ _ _ (by simp), List.append_assoc]
    rfl

end Outline

theorem closeBefore_closeBefore {m n : Nat} (h : m ≤ n) (opened : List (Nat × Nat)) :
    closeBefore n (closeBefore m opened) = closeBefore n opened := by
  induction opened with
  | nil => rfl
  | cons e opened ih =>
    by_cases he : e.1 ≤ m
    · have hen : e.1 ≤ n := he.trans h
      simpa [closeBefore, he, hen] using ih
    · simp [closeBefore, he]

variable {source : List Char}

/-- What a draft has become after the trees of a forest, if `parent` is the innermost declaration open all
along: the forest is grafted there, and no declaration of it is open behind its end. -/
structure Draft.Grafted (source : List Char) (parent : Option Nat) (hi : Nat) (ns : List Nest) (s s' : Draft) :
    Prop where
  outline : s'.outline = s.outline.graft parent ns
  opened : ∀ x, hi ≤ x → closeBefore x s'.opened = closeBefore x s.opened

/-- The innermost declaration that is open at an offset. -/
def Draft.parentAt (s : Draft) (x : Nat) : Option Nat := (closeBefore x s.opened).head?.map Prod.snd

theorem declaration?_span {t : Tree} {d : Declaration} (h : declaration? source t = some d) :
    d.span = t.span ∧ d.children = [] := by
  obtain ⟨part, span, children⟩ := t
  cases part with
  | declaration kind =>
    obtain ⟨name, -, rfl⟩ := Option.map_eq_some_iff.mp h
    exact ⟨rfl, rfl⟩
  | _ => simp [declaration?] at h

mutual

theorem Draft.visit_tree {lo hi : Nat} {parent : Option Nat} {s : Draft} : (t : Tree) → t.Sound source →
    lo ≤ t.span.start → t.span.stop ≤ hi → (∀ x, lo ≤ x → x < hi → s.parentAt x = parent) →
    (∀ p ∈ parent, p < s.outline.declarations.length) →
    Draft.Grafted source parent t.span.stop (Nest.ofTree source t) s
      ((Tree.preorder t).foldl (Draft.visit source) s)
  | .node part span children, ht, hlo, hhi, hs, hp => by
    have hne : span.start < span.stop := ht.1.nonempty
    have hlo' : lo ≤ span.start := hlo
    have hhi' : span.stop ≤ hi := hhi
    rw [Tree.preorder, List.foldl_cons, Nest.ofTree]
    cases hd : declaration? source (.node part span children) with
    | none =>
      have hvisit : Draft.visit source s (.node part span children) = s := by simp [Draft.visit, hd]
      rw [hvisit]
      exact Draft.visit_forest children ht.2
        (fun x hx hx' => hs x (hlo'.trans hx) (hx'.trans_le hhi')) hp
    | some d =>
      -- the declaration goes under `parent`, and is itself the innermost one open up to its end
      have hspan : d.span = span := (declaration?_span hd).1
      have hparent : s.parentAt span.start = parent := hs _ hlo' (hne.trans_le hhi')
      have hvisit : Draft.visit source s (.node part span children) = ⟨s.outline.add d parent,
          (span.stop, s.outline.declarations.length) :: closeBefore span.start s.opened⟩ := by
        rw [← hparent]
        simp [Draft.visit, hd, hspan, Draft.parentAt]
      rw [hvisit]
      set s₁ : Draft := ⟨s.outline.add d parent,
        (span.stop, s.outline.declarations.length) :: closeBefore span.start s.opened⟩ with hs₁
      have hopen : ∀ x, span.start ≤ x → x < span.stop →
          s₁.parentAt x = some s.outline.declarations.length := by
        intro x _ hx
        have hx' : ¬ span.stop ≤ x := by omega
        simp [hs₁, Draft.parentAt, closeBefore, hx']
      have hlen : ∀ p ∈ some s.outline.declarations.length, p < s₁.outline.declarations.length := by
        intro p hpm
        rw [← Option.some.inj hpm, hs₁, Outline.length_add]
        exact Nat.lt_succ_self _
      have hinside := Draft.visit_forest children ht.2 hopen hlen
      refine ⟨?_, fun x hx => ?_⟩
      · rw [hinside.outline]
        exact s.outline.add_graft hp d _
      · have hx' : span.stop ≤ x := hx
        rw [hinside.opened x hx']
        have hclosed : closeBefore x s₁.opened = closeBefore x (closeBefore span.start s.opened) := by
          simp [hs₁, closeBefore, hx']
        rw [hclosed, closeBefore_closeBefore (by omega)]

theorem Draft.visit_forest {lo hi : Nat} {parent : Option Nat} {s : Draft} : (ts : List Tree) →
    Forest source lo hi ts → (∀ x, lo ≤ x → x < hi → s.parentAt x = parent) →
    (∀ p ∈ parent, p < s.outline.declarations.length) →
    Draft.Grafted source parent hi (Nest.ofTrees source ts) s
      ((Tree.preorderAll ts).foldl (Draft.visit source) s)
  | [], h, _, _ => ⟨(s.outline.graft_nil parent).symm, fun _ _ => rfl⟩
  | t :: ts, h, hs, hp => by
    have hle := h.2.2.le
    have hne := h.2.1.fits.nonempty
    have htree := Draft.visit_tree t h.2.1 h.1 hle hs hp
    rw [Tree.preorderAll, List.foldl_append]
    set s₁ := (Tree.preorder t).foldl (Draft.visit source) s with hs₁
    have hs' : ∀ x, t.span.stop ≤ x → x < hi → s₁.parentAt x = parent := by
      intro x hx hx'
      have hlo := h.1
      rw [Draft.parentAt, htree.opened x hx]
      exact hs x (by omega) hx'
    have hp' : ∀ p ∈ parent, p < s₁.outline.declarations.length := by
      intro p hpm
      rw [htree.outline, Outline.length_graft]
      exact Nat.lt_add_right _ (hp p hpm)
    have hrest := Draft.visit_forest ts h.2.2 hs' hp'
    refine ⟨?_, fun x hx => ?_⟩
    · rw [hrest.outline, htree.outline, Nest.ofTrees]
      exact s.outline.graft_graft hp _ _
    · rw [hrest.opened x hx, htree.opened x (hle.trans hx)]

end

/-- The outline of well nested trees is the table of their declarations as a forest. -/
theorem outlineOf_eq {lo hi : Nat} {ts : List Tree} (h : Forest source lo hi ts) :
    outlineOf source ts = ⟨Nest.rowsAll 0 (Nest.ofTrees source ts), Nest.numbers 0 (Nest.ofTrees source ts)⟩ := by
  have hdraft := Draft.visit_forest (s := ⟨.empty, []⟩) ts h (fun _ _ _ => rfl) (by simp)
  rw [outlineOf, hdraft.outline]
  simp [Outline.graft, Outline.empty]

end SignatureDocs
