import SignatureDocs.Outline.Fault
import SignatureDocs.Proofs.Outline.Nest

/-!
The outline of a file is a forest that mirrors how the spans of its declarations lie in each other. Main
statement: `Outline.Mirrors` holds of every outline that is read.
-/
namespace SignatureDocs

open SignatureDocs.Text SignatureDocs.Grammar

/-- A span lies inside another. -/
def Text.Span.Contains (s t : Span) : Prop := s.start ≤ t.start ∧ t.stop ≤ s.stop

namespace Outline

/-- The declaration of number `j` is directly inside that of number `i`. -/
def IsChild (o : Outline) (i j : Nat) : Prop :=
  ∃ d, o.declarations[i]? = some d ∧ j ∈ d.children

/-- The declaration of number `j` is inside that of number `i`, at any depth. -/
def Inside (o : Outline) (i j : Nat) : Prop := Relation.TransGen o.IsChild i j

/-- Of all declarations around that of number `j`, the one of number `i` is the innermost. -/
def Innermost (o : Outline) (i j : Nat) : Prop :=
  ∃ d e, o.declarations[i]? = some d ∧ o.declarations[j]? = some e ∧ i ≠ j ∧ d.span.Contains e.span ∧
    ∀ k f, k ≠ j → o.declarations[k]? = some f → f.span.Contains e.span → f.span.Contains d.span

/-- The numbers of an outline are those of a forest in the order of the text, and the forest is the one that
the spans of the declarations make. -/
structure Mirrors (o : Outline) : Prop where
  /-- Every number is that of one root, or of one child of one declaration. -/
  once : (o.roots ++ o.declarations.flatMap Declaration.children).Perm
    (List.range o.declarations.length)
  roots_lt : o.roots.Pairwise (· < ·)
  children_lt : ∀ d ∈ o.declarations, d.children.Pairwise (· < ·)
  parent_lt : ∀ i j, o.IsChild i j → i < j
  inside_iff : ∀ i j d e, o.declarations[i]? = some d → o.declarations[j]? = some e → i < j →
    (o.Inside i j ↔ d.span.Contains e.span)
  apart : ∀ i j d e, o.declarations[i]? = some d → o.declarations[j]? = some e → i < j →
    ¬ o.Inside i j → d.span.stop ≤ e.span.start
  parent_iff : ∀ i j, o.IsChild i j ↔ o.Innermost i j
  root_iff : ∀ j e, o.declarations[j]? = some e →
    (j ∈ o.roots ↔ ∀ k f, k ≠ j → o.declarations[k]? = some f → ¬ f.span.Contains e.span)

end Outline

namespace Nest

mutual

/-- A nest that lies between two offsets, with what is inside it strictly before its end. -/
def Within (lo hi : Nat) : Nest → Prop
  | mk d inside => d.children = [] ∧ lo ≤ d.span.start ∧ d.span.start < d.span.stop ∧ d.span.stop ≤ hi ∧
      AllWithin d.span.start (d.span.stop - 1) inside

/-- Nests side by side between two offsets. -/
def AllWithin (lo hi : Nat) : List Nest → Prop
  | [] => True
  | n :: ns => Within lo hi n ∧ AllWithin n.declaration.span.stop hi ns

end

theorem Within.bounds {lo hi : Nat} {n : Nest} (h : Within lo hi n) :
    lo ≤ n.declaration.span.start ∧ n.declaration.span.start < n.declaration.span.stop ∧
      n.declaration.span.stop ≤ hi := by
  cases n
  exact ⟨h.2.1, h.2.2.1, h.2.2.2.1⟩

theorem Within.weaken {lo lo' hi hi' : Nat} {n : Nest} (h : Within lo hi n) (hlo : lo' ≤ lo)
    (hhi : hi ≤ hi') : Within lo' hi' n := by
  cases n
  exact ⟨h.1, hlo.trans h.2.1, h.2.2.1, h.2.2.2.1.trans hhi, h.2.2.2.2⟩

/-- A nest ends where its outermost declaration does. -/
theorem Within.tight {lo hi : Nat} {n : Nest} (h : Within lo hi n) :
    Within lo n.declaration.span.stop n := by
  cases n
  exact ⟨h.1, h.2.1, h.2.2.1, Nat.le_refl _, h.2.2.2.2⟩

theorem AllWithin.weaken {lo lo' hi hi' : Nat} {ns : List Nest} (h : AllWithin lo hi ns) (hlo : lo' ≤ lo)
    (hhi : hi ≤ hi') : AllWithin lo' hi' ns := by
  induction ns generalizing lo lo' with
  | nil => trivial
  | cons n ns ih => exact ⟨h.1.weaken hlo hhi, ih h.2 (Nat.le_refl _)⟩

theorem AllWithin.append {lo mid hi : Nat} {ns ms : List Nest} (hn : AllWithin lo mid ns)
    (hm : AllWithin mid hi ms) (hlo : lo ≤ mid) (hhi : mid ≤ hi) : AllWithin lo hi (ns ++ ms) := by
  induction ns generalizing lo with
  | nil => exact hm.weaken hlo (Nat.le_refl _)
  | cons n ns ih =>
    refine ⟨hn.1.weaken (Nat.le_refl _) hhi, ih hn.2 hn.1.bounds.2.2⟩

variable {source : List Char}

/-- Where the declarations that a tree gives end at the latest: those of a body end before its last
character. -/
def limit (t : Tree) : Nat := if t.part = .body then t.span.stop - 1 else t.span.stop

theorem limit_le (t : Tree) : limit t ≤ t.span.stop := by
  unfold limit
  split <;> omega

/-- Where the declarations inside a tree end at the latest. -/
def innerLimit (t : Tree) : Nat :=
  match t.part with
  | .body | .declaration _ => t.span.stop - 1
  | _ => t.span.stop

theorem limit_of_mem_children {t u : Tree} (ht : t.Sound source) (hu : u ∈ t.children) :
    ofTree source u = [] ∨ limit u ≤ innerLimit t := by
  obtain ⟨part, span, children⟩ := t
  have hmem := ht.2.mem hu
  have hlim := limit_le u
  cases part with
  | body =>
    rcases ht.1.capped rfl u hu with ⟨hpart, hbare⟩ | ⟨q, hq, hlt, -⟩
    · left
      obtain ⟨part', span', children'⟩ := u
      obtain rfl : part' = .member .other := hpart
      obtain rfl : children' = [] := hbare
      rfl
    · right
      have hlt' : q < span.stop := hlt
      show limit u ≤ span.stop - 1
      omega
  | declaration kind =>
    -- everything before the body ends where the body starts, and the body has a character left
    right
    show limit u ≤ span.stop - 1
    obtain ⟨front, last, rfl, hlast⟩ := ht.1.endsInBody kind rfl
    obtain ⟨mid, hfront, hback⟩ := ht.2.of_append
    have hne := hback.2.1.fits.nonempty
    have hmid := hback.1
    have hend : last.span.stop ≤ span.stop := hback.2.2
    have hbody : limit last = last.span.stop - 1 := by simp [limit, hlast]
    rcases List.mem_append.mp hu with hu | hu
    · have hstop := (hfront.mem hu).2.2
      omega
    · rw [List.mem_singleton.mp hu]
      omega
  | _ => exact Or.inr (hlim.trans hmem.2.2)

theorem innerLimit_le_limit (t : Tree) : innerLimit t ≤ limit t := by
  obtain ⟨part, span, children⟩ := t
  cases part <;> simp [innerLimit, limit, Tree.part, Tree.span]

mutual

/-- The declarations of a sound tree lie in it as their spans tell. -/
theorem within_ofTree : (t : Tree) → t.Sound source → AllWithin t.span.start (limit t) (ofTree source t)
  | .node part span children, ht => by
    have hinside : AllWithin span.start (innerLimit (.node part span children)) (ofTrees source children) :=
      within_ofTrees children ht.2 fun u hu => limit_of_mem_children ht hu
    have hne : span.start < span.stop := ht.1.nonempty
    rw [ofTree]
    cases hd : declaration? source (.node part span children) with
    | none => exact hinside.weaken (Nat.le_refl _) (innerLimit_le_limit _)
    | some d =>
      obtain ⟨hspan, hchildren⟩ := declaration?_span hd
      change d.span = span at hspan
      cases part with
      | declaration kind =>
        refine ⟨⟨hchildren, ?_, ?_, ?_, ?_⟩, trivial⟩
        · rw [hspan]
          exact Nat.le_refl _
        · rw [hspan]
          exact hne
        · rw [hspan]
          exact Nat.le_refl _
        · rw [hspan]
          exact hinside
      | _ => simp [declaration?] at hd

theorem within_ofTrees {lo hi hi' : Nat} : (ts : List Tree) → Forest source lo hi ts →
    (∀ t ∈ ts, ofTree source t = [] ∨ limit t ≤ hi') → AllWithin lo hi' (ofTrees source ts)
  | [], _, _ => trivial
  | t :: ts, h, hlim => by
    have hrest : AllWithin t.span.stop hi' (ofTrees source ts) :=
      within_ofTrees ts h.2.2 fun u hu => hlim u (List.mem_cons_of_mem _ hu)
    have hne := h.2.1.fits.nonempty
    have hlo := h.1
    have htree := within_ofTree t h.2.1
    rw [ofTrees]
    rcases hlim t List.mem_cons_self with hnil | hle
    · rw [hnil]
      exact hrest.weaken (by omega) (Nat.le_refl _)
    · -- a limit below the end of the tree still leaves the next trees behind it
      have hlim' := limit_le t
      exact (htree.weaken hlo (Nat.le_refl _)).append (hrest.weaken hlim' (Nat.le_refl _))
        (by unfold limit; split <;> omega) hle

end

theorem within_forest {lo hi : Nat} {ts : List Tree} (h : Forest source lo hi ts) :
    AllWithin lo hi (ofTrees source ts) :=
  within_ofTrees ts h fun t ht => Or.inr ((limit_le t).trans (h.mem ht).2.2)

mutual

theorem rows_bounds {lo hi : Nat} (k : Nat) : (n : Nest) → Within lo hi n → ∀ d ∈ rows k n,
    lo ≤ d.span.start ∧ d.span.start < d.span.stop ∧ d.span.stop ≤ hi
  | mk d inside, h, e, he => by
    rcases List.mem_cons.mp he with rfl | he
    · exact ⟨h.2.1, h.2.2.1, h.2.2.2.1⟩
    · have hin := rowsAll_bounds (k + 1) inside h.2.2.2.2 e he
      have hlo := h.2.1
      have hhi := h.2.2.2.1
      omega

theorem rowsAll_bounds {lo hi : Nat} (k : Nat) : (ns : List Nest) → AllWithin lo hi ns → ∀ d ∈ rowsAll k ns,
    lo ≤ d.span.start ∧ d.span.start < d.span.stop ∧ d.span.stop ≤ hi
  | [], _, d, hd => by simp [rowsAll] at hd
  | n :: ns, h, d, hd => by
    rcases List.mem_append.mp hd with hd | hd
    · exact rows_bounds k n h.1 d hd
    · have hin := rowsAll_bounds (k + n.size) ns h.2 d hd
      have hn := h.1.bounds
      omega

end

theorem numbers_bounds {k : Nat} {ns : List Nest} {j : Nat} (hj : j ∈ numbers k ns) :
    k ≤ j ∧ j < k + sizeAll ns := by
  induction ns generalizing k with
  | nil => simp [numbers] at hj
  | cons n ns ih =>
    have hpos : 0 < n.size := by
      cases n
      simp [size]
    rcases List.mem_cons.mp hj with rfl | hj
    · rw [sizeAll]
      omega
    · have hin := ih hj
      rw [sizeAll]
      omega

theorem numbers_pairwise (k : Nat) (ns : List Nest) : (numbers k ns).Pairwise (· < ·) := by
  induction ns generalizing k with
  | nil => exact List.Pairwise.nil
  | cons n ns ih =>
    refine List.Pairwise.cons (fun j hj => ?_) (ih _)
    have hpos : 0 < n.size := by
      cases n
      simp [size]
    have hin := numbers_bounds hj
    omega

mutual

/-- Every number of a nest but the first is that of a child of one declaration. -/
theorem children_perm {lo hi : Nat} (k : Nat) : (n : Nest) → Within lo hi n →
    ((rows k n).flatMap Declaration.children).Perm (List.range' (k + 1) (n.size - 1))
  | mk d inside, h => by
    have hin := childrenAll_perm (k + 1) inside h.2.2.2.2
    rw [rows, List.flatMap_cons, Declaration.adopt, h.1, List.nil_append]
    simpa [size] using hin

/-- Every number of a forest is that of an outermost declaration or of a child of one, and of one only. -/
theorem childrenAll_perm {lo hi : Nat} (k : Nat) : (ns : List Nest) → AllWithin lo hi ns →
    (numbers k ns ++ (rowsAll k ns).flatMap Declaration.children).Perm (List.range' k (sizeAll ns))
  | [], _ => List.Perm.refl _
  | n :: ns, h => by
    have htree := children_perm k n h.1
    have hrest := childrenAll_perm (k + n.size) ns h.2
    have hpos : 0 < n.size := by
      cases n
      simp [size]
    have hsplit : List.range' k (sizeAll (n :: ns)) =
        k :: List.range' (k + 1) (n.size - 1) ++ List.range' (k + n.size) (sizeAll ns) := by
      have hcons : k :: List.range' (k + 1) (n.size - 1) = List.range' k n.size := by
        rw [← List.range'_succ]
        congr 1
        omega
      rw [hcons, sizeAll, List.range'_append_1]
    rw [hsplit, numbers, rowsAll, List.flatMap_append, List.cons_append, List.cons_append]
    refine List.Perm.cons k ?_
    have hswap : (numbers (k + n.size) ns ++ (rows k n).flatMap Declaration.children ++
        (rowsAll (k + n.size) ns).flatMap Declaration.children).Perm
        ((rows k n).flatMap Declaration.children ++ numbers (k + n.size) ns ++
          (rowsAll (k + n.size) ns).flatMap Declaration.children) := List.perm_append_comm.append_right _
    rw [List.append_assoc, List.append_assoc] at hswap
    exact hswap.trans (htree.append hrest)

end

variable {o : Outline}

theorem prefix_drop_append {α : Type} {xs ys l : List α} {k : Nat} (h : xs ++ ys <+: l.drop k) :
    xs <+: l.drop k ∧ ys <+: l.drop (k + xs.length) := by
  obtain ⟨zs, hz⟩ := h
  refine ⟨⟨ys ++ zs, by rw [← hz, List.append_assoc]⟩, zs, ?_⟩
  rw [← List.drop_drop, ← hz, List.append_assoc, List.drop_left]

theorem prefix_drop_cons {α : Type} {x : α} {xs l : List α} {k : Nat} (h : x :: xs <+: l.drop k) :
    l[k]? = some x ∧ xs <+: l.drop (k + 1) := by
  have hsplit : [x] <+: l.drop k ∧ xs <+: l.drop (k + 1) := prefix_drop_append h
  obtain ⟨zs, hz⟩ := hsplit.1
  refine ⟨?_, hsplit.2⟩
  rw [← List.head?_drop, ← hz]
  rfl

mutual

/-- Everything in a nest is inside its outermost declaration. -/
theorem inside_of_lt (k : Nat) : (n : Nest) → rows k n <+: o.declarations.drop k → ∀ j, k < j →
    j < k + n.size → o.Inside k j
  | mk d inside, h, j, hlo, hhi => by
    obtain ⟨hrow, hrest⟩ := prefix_drop_cons h
    refine insideAll_of_lt (k + 1) inside hrest k (fun m hm => ?_) j hlo (by rw [size] at hhi; omega)
    exact ⟨_, hrow, List.mem_append_right _ hm⟩

/-- What is in a forest is inside a declaration that has the outermost ones as children. -/
theorem insideAll_of_lt (k : Nat) : (ns : List Nest) → rowsAll k ns <+: o.declarations.drop k → ∀ i,
    (∀ m ∈ numbers k ns, o.IsChild i m) → ∀ j, k ≤ j → j < k + sizeAll ns → o.Inside i j
  | [], _, i, _, j, hlo, hhi => by
    rw [sizeAll] at hhi
    omega
  | n :: ns, h, i, hi, j, hlo, hhi => by
    obtain ⟨htree, hrest⟩ := prefix_drop_append h
    rw [length_rows] at hrest
    have hfirst : o.Inside i k := .single (hi k List.mem_cons_self)
    by_cases hj : j < k + n.size
    · rcases Nat.eq_or_lt_of_le hlo with rfl | hlt
      · exact hfirst
      · exact hfirst.trans (inside_of_lt k n htree j hlt hj)
    · exact insideAll_of_lt (k + n.size) ns hrest i (fun m hm => hi m (List.mem_cons_of_mem _ hm)) j
        (by omega) (by rw [sizeAll] at hhi; omega)

end

mutual

/-- Of two declarations of a nest, the later is inside the earlier or behind it. -/
theorem pairwise_rows {lo hi : Nat} (k : Nat) : (n : Nest) → Within lo hi n →
    rows k n <+: o.declarations.drop k → ((rows k n).zipIdx k).Pairwise fun a b =>
      o.Inside a.2 b.2 ∨ a.1.span.stop ≤ b.1.span.start
  | mk d inside, h, hrows => by
    have hin := pairwise_rowsAll (k + 1) inside h.2.2.2.2 (prefix_drop_cons hrows).2
    refine List.Pairwise.cons (fun e he => Or.inl ?_) hin
    have hidx := List.mem_zipIdx he
    refine inside_of_lt k _ hrows e.2 (by omega) ?_
    rw [length_rowsAll] at hidx
    rw [size]
    omega

theorem pairwise_rowsAll {lo hi : Nat} (k : Nat) : (ns : List Nest) → AllWithin lo hi ns →
    rowsAll k ns <+: o.declarations.drop k → ((rowsAll k ns).zipIdx k).Pairwise fun a b =>
      o.Inside a.2 b.2 ∨ a.1.span.stop ≤ b.1.span.start
  | [], _, _ => List.Pairwise.nil
  | n :: ns, h, hrows => by
    obtain ⟨htree, hrest⟩ := prefix_drop_append hrows
    rw [length_rows] at hrest
    rw [rowsAll, List.zipIdx_append, length_rows]
    refine List.pairwise_append.mpr ⟨pairwise_rows k n h.1 htree, pairwise_rowsAll _ ns h.2 hrest, ?_⟩
    -- the nests side by side do not overlap
    intro a ha b hb
    have hstop := (rows_bounds k n h.1.tight a.1 (List.fst_mem_of_mem_zipIdx ha)).2.2
    have hstart := (rowsAll_bounds _ ns h.2 b.1 (List.fst_mem_of_mem_zipIdx hb)).1
    exact Or.inr (hstop.trans hstart)

end

/-- The row of an outermost declaration of a forest. -/
theorem row_of_mem_numbers {lo hi k j : Nat} {ns : List Nest} (h : AllWithin lo hi ns)
    (hrows : rowsAll k ns <+: o.declarations.drop k) (hj : j ∈ numbers k ns) :
    ∃ e, o.declarations[j]? = some e ∧ lo ≤ e.span.start ∧ e.span.stop ≤ hi := by
  induction ns generalizing k lo with
  | nil => simp [numbers] at hj
  | cons n ns ih =>
    obtain ⟨htree, hrest⟩ := prefix_drop_append hrows
    rw [length_rows] at hrest
    have hn := h.1.bounds
    rcases List.mem_cons.mp hj with rfl | hj
    · obtain ⟨d, inside⟩ := n
      exact ⟨_, (prefix_drop_cons htree).1, hn.1, hn.2.2⟩
    · obtain ⟨e, he, hlo, hhi⟩ := ih h.2 hrest hj
      exact ⟨e, he, by omega, hhi⟩

mutual

/-- The children of a declaration have later numbers and lie strictly inside it. -/
theorem children_rows {lo hi : Nat} (k : Nat) : (n : Nest) → Within lo hi n →
    rows k n <+: o.declarations.drop k → ∀ a ∈ (rows k n).zipIdx k, ∀ j ∈ a.1.children,
    a.2 < j ∧ ∃ e, o.declarations[j]? = some e ∧ a.1.span.start ≤ e.span.start ∧
      e.span.stop < a.1.span.stop
  | mk d inside, h, hrows, a, ha, j, hj => by
    obtain ⟨-, hrest⟩ := prefix_drop_cons hrows
    rw [rows, List.zipIdx_cons] at ha
    rcases List.mem_cons.mp ha with rfl | ha
    · have hmem : j ∈ numbers (k + 1) inside := by
        simpa [Declaration.adopt, h.1] using hj
      obtain ⟨e, he, hlo, hhi⟩ := row_of_mem_numbers h.2.2.2.2 hrest hmem
      have hne := h.2.2.1
      refine ⟨(numbers_bounds hmem).1, e, he, hlo, ?_⟩
      show e.span.stop < d.span.stop
      omega
    · exact children_rowsAll (k + 1) inside h.2.2.2.2 hrest a ha j hj

theorem children_rowsAll {lo hi : Nat} (k : Nat) : (ns : List Nest) → AllWithin lo hi ns →
    rowsAll k ns <+: o.declarations.drop k → ∀ a ∈ (rowsAll k ns).zipIdx k, ∀ j ∈ a.1.children,
    a.2 < j ∧ ∃ e, o.declarations[j]? = some e ∧ a.1.span.start ≤ e.span.start ∧
      e.span.stop < a.1.span.stop
  | [], _, _, a, ha, _, _ => by simp [rowsAll] at ha
  | n :: ns, h, hrows, a, ha, j, hj => by
    obtain ⟨htree, hrest⟩ := prefix_drop_append hrows
    rw [length_rows] at hrest
    rw [rowsAll, List.zipIdx_append, length_rows] at ha
    rcases List.mem_append.mp ha with ha | ha
    · exact children_rows k n h.1 htree a ha j hj
    · exact children_rowsAll _ ns h.2 hrest a ha j hj

end

mutual

theorem children_pairwise {lo hi : Nat} (k : Nat) : (n : Nest) → Within lo hi n → ∀ d ∈ rows k n,
    d.children.Pairwise (· < ·)
  | mk d inside, h, e, he => by
    rcases List.mem_cons.mp he with rfl | he
    · simpa [Declaration.adopt, h.1] using numbers_pairwise (k + 1) inside
    · exact childrenAll_pairwise (k + 1) inside h.2.2.2.2 e he

theorem childrenAll_pairwise {lo hi : Nat} (k : Nat) : (ns : List Nest) → AllWithin lo hi ns →
    ∀ d ∈ rowsAll k ns, d.children.Pairwise (· < ·)
  | [], _, d, hd => by simp [rowsAll] at hd
  | n :: ns, h, d, hd => by
    rcases List.mem_append.mp hd with hd | hd
    · exact children_pairwise k n h.1 d hd
    · exact childrenAll_pairwise (k + n.size) ns h.2 d hd

end

end Nest

/-- What the rows of an outline tell about its numbers and spans, one step at a time. -/
structure Outline.Laid (o : Outline) : Prop where
  once : (o.roots ++ o.declarations.flatMap Declaration.children).Perm
    (List.range o.declarations.length)
  nonempty : ∀ (i : Nat) (d : Declaration), o.declarations[i]? = some d → d.span.start < d.span.stop
  child : ∀ (i : Nat) (d : Declaration), o.declarations[i]? = some d → ∀ j ∈ d.children, i < j ∧
    ∃ e, o.declarations[j]? = some e ∧ d.span.start ≤ e.span.start ∧ e.span.stop < d.span.stop
  later : ∀ (i j : Nat) (d e : Declaration), o.declarations[i]? = some d → o.declarations[j]? = some e → i < j →
    o.Inside i j ∨ d.span.stop ≤ e.span.start

namespace Outline.Laid

variable {o : Outline}

/-- A declaration inside another has a later number and lies strictly inside its span. -/
theorem of_inside (h : o.Laid) {i j : Nat} (hij : o.Inside i j) : i < j ∧ ∃ d e,
    o.declarations[i]? = some d ∧ o.declarations[j]? = some e ∧ d.span.start ≤ e.span.start ∧
      e.span.stop < d.span.stop := by
  induction hij with
  | single hchild =>
    obtain ⟨d, hd, hj⟩ := hchild
    obtain ⟨hlt, e, he, hlo, hhi⟩ := h.child _ d hd _ hj
    exact ⟨hlt, d, e, hd, he, hlo, hhi⟩
  | tail _ hchild ih =>
    obtain ⟨hlt, d, e, hd, he, hlo, hhi⟩ := ih
    obtain ⟨e', he', hj⟩ := hchild
    obtain rfl : e = e' := Option.some.inj (he.symm.trans he')
    obtain ⟨hlt', f, hf, hlo', hhi'⟩ := h.child _ e he _ hj
    exact ⟨hlt.trans hlt', d, f, hd, hf, hlo.trans hlo', hhi'.trans hhi⟩

theorem inside_iff (h : o.Laid) {i j : Nat} {d e : Declaration} (hd : o.declarations[i]? = some d)
    (he : o.declarations[j]? = some e) (hlt : i < j) : o.Inside i j ↔ d.span.Contains e.span := by
  constructor
  · intro hij
    obtain ⟨-, d', e', hd', he', hlo, hhi⟩ := h.of_inside hij
    obtain rfl : d = d' := Option.some.inj (hd.symm.trans hd')
    obtain rfl : e = e' := Option.some.inj (he.symm.trans he')
    exact ⟨hlo, hhi.le⟩
  · -- a span behind the earlier one is not empty and so not in it
    intro hspan
    rcases h.later i j d e hd he hlt with hij | hle
    · exact hij
    · have hne := h.nonempty j e he
      have hstop := hspan.2
      omega

/-- The numbers of roots and of children do not repeat. -/
theorem nodup (h : o.Laid) : (o.roots ++ o.declarations.flatMap Declaration.children).Nodup :=
  h.once.nodup_iff.mpr List.nodup_range

theorem isChild_unique (h : o.Laid) {i i' j : Nat} (hi : o.IsChild i j) (hi' : o.IsChild i' j) : i = i' := by
  obtain ⟨d, hd, hj⟩ := hi
  obtain ⟨d', hd', hj'⟩ := hi'
  have hpair := (List.nodup_flatMap.mp (List.nodup_append.mp h.nodup).2.1).2
  obtain ⟨hlt, rfl⟩ := List.getElem?_eq_some_iff.mp hd
  obtain ⟨hlt', rfl⟩ := List.getElem?_eq_some_iff.mp hd'
  rw [List.pairwise_iff_getElem] at hpair
  rcases Nat.lt_trichotomy i i' with hc | hc | hc
  · exact absurd hj' (hpair i i' hlt hlt' hc hj)
  · exact hc
  · exact absurd hj (hpair i' i hlt' hlt hc hj')

theorem not_isChild_of_root (h : o.Laid) {i j : Nat} (hj : j ∈ o.roots) : ¬ o.IsChild i j := by
  rintro ⟨d, hd, hmem⟩
  have hdisj := (List.nodup_append.mp h.nodup).2.2
  exact hdisj j hj j (List.mem_flatMap.mpr ⟨d, List.mem_of_getElem? hd, hmem⟩) rfl

/-- A declaration around another is its parent or around its parent. -/
theorem inside_of_contains (h : o.Laid) {j k : Nat} {e f : Declaration} (hkj : k ≠ j)
    (he : o.declarations[j]? = some e) (hf : o.declarations[k]? = some f) (hspan : f.span.Contains e.span) :
    o.Inside k j := by
  rcases Nat.lt_or_gt_of_ne hkj with hlt | hgt
  · exact (h.inside_iff hf he hlt).mpr hspan
  · -- a later declaration is smaller or behind
    have hne := h.nonempty k f hf
    have hne' := h.nonempty j e he
    obtain ⟨hlo, hhi⟩ := hspan
    rcases h.later j k e f he hf hgt with hin | hle
    · obtain ⟨-, e', f', he', hf', hlo', hhi'⟩ := h.of_inside hin
      obtain rfl : e = e' := Option.some.inj (he.symm.trans he')
      obtain rfl : f = f' := Option.some.inj (hf.symm.trans hf')
      omega
    · omega

theorem innermost_of_isChild (h : o.Laid) {i j : Nat} (hij : o.IsChild i j) : o.Innermost i j := by
  obtain ⟨hlt, d, e, hd, he, hlo, hhi⟩ := h.of_inside (.single hij)
  refine ⟨d, e, hd, he, hlt.ne, ⟨hlo, hhi.le⟩, fun k f hkj hf hspan => ?_⟩
  -- the way from `k` down to `j` ends with the step from the parent
  cases h.inside_of_contains hkj he hf hspan with
  | single hkj' =>
    obtain rfl := h.isChild_unique hkj' hij
    obtain rfl : f = d := Option.some.inj (hf.symm.trans hd)
    exact ⟨Nat.le_refl _, Nat.le_refl _⟩
  | tail hkb hbj =>
    obtain rfl := h.isChild_unique hbj hij
    obtain ⟨-, f', d', hf', hd', hlo', hhi'⟩ := h.of_inside hkb
    obtain rfl : f = f' := Option.some.inj (hf.symm.trans hf')
    obtain rfl : d = d' := Option.some.inj (hd.symm.trans hd')
    exact ⟨hlo', hhi'.le⟩

theorem isChild_of_innermost (h : o.Laid) {i j : Nat} (hij : o.Innermost i j) : o.IsChild i j := by
  obtain ⟨d, e, hd, he, hne, hspan, hall⟩ := hij
  cases h.inside_of_contains hne he hd hspan with
  | single hchild => exact hchild
  | @tail b _ hib hbj =>
    -- the parent of `j` would be strictly inside the declaration of number `i`
    obtain ⟨-, d', f, hd', hf, hlo, hhi⟩ := h.of_inside hib
    obtain rfl : d = d' := Option.some.inj (hd.symm.trans hd')
    obtain ⟨hbj', f', e', hf', he', hlo', hhi'⟩ := h.of_inside (.single hbj)
    obtain rfl : f = f' := Option.some.inj (hf.symm.trans hf')
    obtain rfl : e = e' := Option.some.inj (he.symm.trans he')
    have hsmall := hall b f hbj'.ne hf ⟨hlo', hhi'.le⟩
    have hstop := hsmall.2
    omega

theorem root_iff (h : o.Laid) {j : Nat} {e : Declaration} (he : o.declarations[j]? = some e) :
    j ∈ o.roots ↔ ∀ k f, k ≠ j → o.declarations[k]? = some f → ¬ f.span.Contains e.span := by
  constructor
  · intro hroot k f hkj hf hspan
    cases h.inside_of_contains hkj he hf hspan with
    | single hchild => exact h.not_isChild_of_root hroot hchild
    | tail _ hchild => exact h.not_isChild_of_root hroot hchild
  · -- a number that is no root is that of a child, and the span of its parent contains it
    intro hnone
    have hrange : j ∈ List.range o.declarations.length :=
      List.mem_range.mpr (List.getElem?_eq_some_iff.mp he).1
    rcases List.mem_append.mp (h.once.mem_iff.mpr hrange) with hroot | hchild
    · exact hroot
    · obtain ⟨d, hmem, hj⟩ := List.mem_flatMap.mp hchild
      obtain ⟨i, hd⟩ := List.getElem?_of_mem hmem
      obtain ⟨hlt, d', e', hd', he', hlo, hhi⟩ := h.of_inside (.single ⟨d, hd, hj⟩)
      obtain rfl : e = e' := Option.some.inj (he.symm.trans he')
      exact absurd ⟨hlo, hhi.le⟩ (hnone i d' hlt.ne hd')

end Outline.Laid

namespace Nest

/-- The table of a forest is laid out as its spans tell. -/
theorem laid_table {lo hi : Nat} {ns : List Nest} (h : AllWithin lo hi ns) :
    Outline.Laid ⟨rowsAll 0 ns, numbers 0 ns⟩ := by
  have hrows : rowsAll 0 ns <+: (Outline.mk (rowsAll 0 ns) (numbers 0 ns)).declarations.drop 0 :=
    List.prefix_refl _
  have hmem {i : Nat} {d : Declaration} (hd : (rowsAll 0 ns)[i]? = some d) :
      (d, i) ∈ (rowsAll 0 ns).zipIdx 0 := List.mk_mem_zipIdx_iff_getElem?.mpr hd
  refine ⟨?_, fun i d hd => ?_, fun i d hd j hj => ?_, fun i j d e hd he hlt => ?_⟩
  · have hperm := childrenAll_perm 0 ns h
    rwa [← List.range_eq_range', ← length_rowsAll 0 ns] at hperm
  · exact (rowsAll_bounds 0 ns h d (List.mem_of_getElem? hd)).2.1
  · exact children_rowsAll 0 ns h hrows (d, i) (hmem hd) j hj
  · have hpair := pairwise_rowsAll 0 ns h hrows
    obtain ⟨hi', rfl⟩ := List.getElem?_eq_some_iff.mp hd
    obtain ⟨hj', rfl⟩ := List.getElem?_eq_some_iff.mp he
    rw [List.pairwise_iff_getElem] at hpair
    have hthis := hpair i j (by simpa using hi') (by simpa using hj') hlt
    simpa using hthis

end Nest

theorem Outline.mirrors_of_trees {source : List Char} {lo hi : Nat} {ts : List Tree}
    (h : Forest source lo hi ts) : (outlineOf source ts).Mirrors := by
  have hin := Nest.within_forest h
  have hlaid := Nest.laid_table hin
  rw [outlineOf_eq h]
  exact {
    once := hlaid.once
    roots_lt := Nest.numbers_pairwise 0 _
    children_lt := Nest.childrenAll_pairwise 0 _ hin
    parent_lt := fun i j hij => (hlaid.of_inside (.single hij)).1
    inside_iff := fun i j d e hd he hlt => hlaid.inside_iff hd he hlt
    apart := fun i j d e hd he hlt hno => (hlaid.later i j d e hd he hlt).resolve_left hno
    parent_iff := fun i j => ⟨hlaid.innermost_of_isChild, hlaid.isChild_of_innermost⟩
    root_iff := fun j e he => hlaid.root_iff he }

/-- A declaration without the numbers of those inside it. -/
def Declaration.bare (d : Declaration) : Declaration := { d with children := [] }

namespace Nest

mutual

theorem bare_rows {source : List Char} (k : Nat) : (t : Tree) →
    (rowsAll k (ofTree source t)).map Declaration.bare =
      (Tree.preorder t).filterMap (declaration? source)
  | .node part span children => by
    rw [ofTree, Tree.preorder, List.filterMap_cons]
    cases hd : declaration? source (.node part span children) with
    | none => exact bare_rowsAll k children
    | some d =>
      have hbare : (d.adopt (numbers (k + 1) (ofTrees source children))).bare = d := by
        have hchildren := (declaration?_span hd).2
        cases d
        simp_all [Declaration.bare, Declaration.adopt]
      simp only [rowsAll, rows, List.append_nil, List.map_cons, hbare, bare_rowsAll (k + 1) children]

/-- The rows of a forest are its declarations in the order of the text. -/
theorem bare_rowsAll {source : List Char} (k : Nat) : (ts : List Tree) →
    (rowsAll k (ofTrees source ts)).map Declaration.bare =
      (Tree.preorderAll ts).filterMap (declaration? source)
  | [] => rfl
  | t :: ts => by
    rw [ofTrees, rowsAll_append, List.map_append, bare_rows k t, bare_rowsAll _ ts, Tree.preorderAll,
      List.filterMap_append]

end

end Nest

theorem Outline.read_eq_ok {d : Dialect} {source : List Char} {o : Outline}
    (h : Outline.read d source = .ok o) : ∃ ts c r, readFile d source = .accepted ts c r ∧
      Forest source 0 (byteLength source) ts ∧ o = outlineOf source ts := by
  unfold Outline.read at h
  split at h
  · next ts c r hread =>
    exact ⟨ts, c, r, hread, readFile_forest hread, (Except.ok.inj h).symm⟩
  · simp at h
  · simp at h

/-- The outline of every file that can be read lists its named classes and interfaces in the order of the text,
as a forest that mirrors how their spans lie in each other. -/
theorem Outline.mirrors_of_read {d : Dialect} {source : List Char} {o : Outline}
    (h : Outline.read d source = .ok o) :
    o.Mirrors ∧ ∃ ts c r, readFile d source = .accepted ts c r ∧
      o.declarations.map Declaration.bare = (Tree.preorderAll ts).filterMap (declaration? source) := by
  obtain ⟨ts, c, r, hread, hforest, rfl⟩ := Outline.read_eq_ok h
  refine ⟨Outline.mirrors_of_trees hforest, ts, c, r, hread, ?_⟩
  rw [outlineOf_eq hforest]
  exact Nest.bare_rowsAll 0 ts

/-- A class in a method of a class without a name belongs to the named class around both. -/
theorem Outline.mirrors_nameless :
    ∃ o, Outline.read .typeScript
        "class A\x7bm()\x7breturn class\x7bn()\x7bclass B\x7b\x7d\x7d\x7d\x7d\x7d".toList = .ok o ∧
      o.roots = [0] ∧ o.declarations.map (·.children) = [[1], []] ∧ o.Mirrors := by
  have h : Outline.read .typeScript
      "class A\x7bm()\x7breturn class\x7bn()\x7bclass B\x7b\x7d\x7d\x7d\x7d\x7d".toList = .ok
        ⟨[⟨.classKind, "A", ⟨0, 42⟩, [⟨.method, some "m", ⟨8, 41⟩, ⟨8, 8⟩⟩], [1]⟩,
          ⟨.classKind, "B", ⟨29, 38⟩, [], []⟩], [0]⟩ := by
    decide +kernel
  exact ⟨_, h, rfl, rfl, (Outline.mirrors_of_read h).1⟩

end SignatureDocs
