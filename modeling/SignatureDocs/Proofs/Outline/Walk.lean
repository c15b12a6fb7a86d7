import SignatureDocs.Method.Extraction
import SignatureDocs.Proofs.Outline.Members

/-!
The way through an outline. The worklist comes to an end, and it has then come by each declaration once, in the
order of the text; so the methods of a file are those of its declarations, one declaration after another.
-/
namespace SignatureDocs

open SignatureDocs.Text SignatureDocs.Grammar

namespace Outline

variable {α : Type} {o : Outline} {visit : Nat → Declaration → List α}

theorem walk_nil (budget : Nat) (found : List α) : o.walk visit budget [] found = some found := by
  cases budget <;> rfl

/-- A declaration is visited, and those inside it come next. -/
theorem walk_cons {number : Nat} {d : Declaration} (h : o.declarations[number]? = some d) (budget : Nat)
    (work : List Nat) (found : List α) : o.walk visit (budget + 1) (number :: work) found =
      o.walk visit budget (d.children ++ work) (found ++ visit number d) := by
  rw [walk, h]

/-- What visiting a list of declarations gives, the first of which is number `k`. -/
def visitAll (visit : Nat → Declaration → List α) (k : Nat) (ds : List Declaration) : List α :=
  (ds.zipIdx k).flatMap fun (d, number) => visit number d

theorem visitAll_cons (k : Nat) (d : Declaration) (ds : List Declaration) :
    visitAll visit k (d :: ds) = visit k d ++ visitAll visit (k + 1) ds := rfl

theorem visitAll_append (k : Nat) (ds es : List Declaration) :
    visitAll visit k (ds ++ es) = visitAll visit k ds ++ visitAll visit (k + ds.length) es := by
  simp [visitAll, List.zipIdx_append]

theorem visitAll_const (f : Declaration → List α) (k : Nat) (ds : List Declaration) :
    visitAll (fun _ => f) k ds = ds.flatMap f := by
  induction ds generalizing k with
  | nil => rfl
  | cons d ds ih => rw [visitAll_cons, ih, List.flatMap_cons]

mutual

theorem walk_nest {lo hi : Nat} (k : Nat) : (n : Nest) → n.Within lo hi →
    Nest.rows k n <+: o.declarations.drop k → ∀ budget work found,
      o.walk visit (n.size + budget) (k :: work) found =
        o.walk visit budget work (found ++ visitAll visit k (Nest.rows k n))
  | .mk d inside, hn, h, budget, work, found => by
    obtain ⟨hrow, hrest⟩ := Nest.prefix_drop_cons h
    have hchildren : (d.adopt (Nest.numbers (k + 1) inside)).children = Nest.numbers (k + 1) inside := by
      rw [Declaration.adopt, hn.1, List.nil_append]
    rw [Nest.size, Nat.add_right_comm, walk_cons hrow, hchildren,
      walk_nests (k + 1) inside hn.2.2.2.2 hrest, Nest.rows, visitAll_cons, List.append_assoc]

/-- The walk comes by all declarations of a forest before it goes on with the rest of the worklist, and takes one
step for each. -/
theorem walk_nests {lo hi : Nat} (k : Nat) : (ns : List Nest) → Nest.AllWithin lo hi ns →
    Nest.rowsAll k ns <+: o.declarations.drop k → ∀ budget work found,
      o.walk visit (Nest.sizeAll ns + budget) (Nest.numbers k ns ++ work) found =
        o.walk visit budget work (found ++ visitAll visit k (Nest.rowsAll k ns))
  | [], _, _, budget, work, found => by
    rw [Nest.numbers, Nest.rowsAll, Nest.sizeAll, Nat.zero_add, List.nil_append, visitAll, List.zipIdx_nil,
      List.flatMap_nil, List.append_nil]
  | n :: ns, hns, h, budget, work, found => by
    obtain ⟨htree, hrest⟩ := Nest.prefix_drop_append h
    rw [Nest.length_rows] at hrest
    rw [Nest.numbers, List.cons_append, Nest.sizeAll, Nat.add_assoc, walk_nest k n hns.1 htree,
      walk_nests (k + n.size) ns hns.2 hrest, Nest.rowsAll, visitAll_append, Nest.length_rows,
      List.append_assoc]

end

/-- The walk through an outline takes one step for each declaration and then ends, and has visited them in the
order of their numbers. -/
theorem walk_outlineOf {source : List Char} {ts : List Tree} {lo hi : Nat} (h : Forest source lo hi ts)
    {budget : Nat} (hbudget : (outlineOf source ts).declarations.length ≤ budget) :
    (outlineOf source ts).walk visit budget (outlineOf source ts).roots [] =
      some (visitAll visit 0 (outlineOf source ts).declarations) := by
  obtain ⟨spare, rfl⟩ := Nat.exists_eq_add_of_le hbudget
  rw [outlineOf_eq h]
  dsimp only
  rw [Nest.length_rowsAll, ← List.append_nil (Nest.numbers 0 _),
    walk_nests 0 (Nest.ofTrees source ts) (Nest.within_forest h) List.prefix_rfl, walk_nil,
    List.nil_append]

end Outline

namespace Member

/-- The method that a member stands for, if it is one and the selection has its name. -/
def method? (source : List Char) (s : Selection) (declarationName : String) (m : Member) :
    Option Method :=
  if m.kind = .method then
    (m.name.filter s.filter.accepts).map fun name => m.method source declarationName name
  else none

/-- A visit to a member that can be cut out gives its method. -/
theorem Placed.visit_method? {source : List Char} {hi : Nat} {m : Member} (h : m.Placed source hi)
    (s : Selection) (declarationName : String) :
    (Visit.member? source s declarationName m).bind Visit.method? =
      m.method? source s declarationName := by
  by_cases hkind : m.kind = .method
  · rw [method?, if_pos hkind]
    cases hname : m.name with
    | none => simp [Visit.member?, hkind, hname]
    | some name =>
      by_cases haccepts : s.filter.accepts name = true
      · rw [h.member?_eq_found hkind hname haccepts, Option.filter_some_pos haccepts]
        rfl
      · simp [Visit.member?, hkind, hname, haccepts, Visit.method?]
  · rw [method?, if_neg hkind]
    simp [Visit.member?, hkind]

end Member

/-- The methods of a declaration that a selection asks for. -/
def Declaration.methods (source : List Char) (s : Selection) (d : Declaration) : List Method :=
  if d.name = s.declarationName then d.members.filterMap (Member.method? source s d.name) else []

theorem Declaration.visit_methods {source : List Char} {hi lo : Nat} {d : Declaration}
    (h : Placed source hi lo d.members) (s : Selection) :
    (Visit.declaration source s d).filterMap Visit.method? = d.methods source s := by
  unfold Visit.declaration Declaration.methods
  split
  · rw [List.filterMap_filterMap]
    apply List.filterMap_congr
    intro m hm
    exact (h.mem hm).1.visit_method? s d.name
  · rfl

/-- The methods found on the way through an outline are those of its declarations, one after another. -/
theorem methodsOf_outlineOf {source : List Char} {ts : List Tree} {lo hi : Nat}
    (h : Forest source lo hi ts) (s : Selection) : methodsOf source s (outlineOf source ts) =
      (outlineOf source ts).declarations.flatMap (Declaration.methods source s) := by
  rw [methodsOf, visits, Outline.walk_outlineOf h le_rfl, Option.getD_some, Outline.visitAll_const,
    List.filterMap_flatMap]
  apply List.flatMap_congr
  intro row hrow
  obtain ⟨t, ht, hdecl⟩ := Outline.mem_declarations h hrow
  obtain ⟨body, -, -, hplaced⟩ := declaration?_placed (sound_of_mem_preorderAll h t ht) hdecl
  have hmembers : Placed source body.span.stop body.span.start row.members := hplaced
  exact Declaration.visit_methods hmembers s

/-- A method that is found comes from a member that has the kind of a method, in a declaration of the wanted name. -/
theorem Declaration.mem_methods {source : List Char} {s : Selection} {row : Declaration} {x : Method}
    (h : x ∈ row.methods source s) : row.name = s.declarationName ∧
      ∃ m ∈ row.members, m.kind = .method ∧ ∃ name, x = m.method source row.name name := by
  unfold Declaration.methods at h
  split_ifs at h with hname
  · obtain ⟨m, hm, hx⟩ := List.mem_filterMap.1 h
    unfold Member.method? at hx
    split_ifs at hx with hkind
    obtain ⟨name, -, rfl⟩ := Option.map_eq_some_iff.1 hx
    exact ⟨hname, m, hm, hkind, name, rfl⟩
  · cases h

theorem extract_eq_ok {d : Dialect} {source : List Char} {s : Selection} {ms : List Method}
    (h : extract d source s = .ok ms) : ∃ ts c r, readFile d source = .accepted ts c r ∧
      Forest source 0 (byteLength source) ts ∧
      ms = (outlineOf source ts).declarations.flatMap (Declaration.methods source s) := by
  unfold extract at h
  cases hread : Outline.read d source with
  | error f => simp [hread, Except.map] at h
  | ok o =>
    obtain ⟨ts, c, r, hfile, hforest, rfl⟩ := Outline.read_eq_ok hread
    rw [hread] at h
    exact ⟨ts, c, r, hfile, hforest, (methodsOf_outlineOf hforest s) ▸ (Except.ok.inj h).symm⟩

/-- For every file that can be read, the walk through its outline ends after one step for each declaration, in the
order of their numbers, and the methods found are those of the declarations of the wanted name, one declaration after
another. -/
theorem extract_eq_methods {d : Dialect} {source : List Char} {o : Outline}
    (h : Outline.read d source = .ok o) :
    (∀ (α : Type) (visit : Nat → Declaration → List α) (budget : Nat), o.declarations.length ≤ budget →
      o.walk visit budget o.roots [] =
        some (o.declarations.zipIdx.flatMap fun (row, number) => visit number row)) ∧
    ∀ s : Selection, extract d source s = .ok (o.declarations.flatMap (Declaration.methods source s)) := by
  obtain ⟨ts, c, r, hread, hforest, rfl⟩ := Outline.read_eq_ok h
  refine ⟨fun α visit budget hbudget => Outline.walk_outlineOf hforest hbudget, fun s => ?_⟩
  rw [extract, h, Except.map, methodsOf_outlineOf hforest]

/-- A class in a method of another of the same name gives its methods after all of the outer one's. -/
theorem extract_eq_methods_nested :
    extract .typeScript "class A\x7bm()\x7bclass A\x7bn()\x7b\x7d\x7d\x7dk()\x7b\x7d\x7d".toList ⟨"A", ⟨none, []⟩⟩ =
      .ok [⟨"A", "m", "m()\x7bclass A\x7bn()\x7b\x7d\x7d\x7d", ""⟩, ⟨"A", "k", "k()\x7b\x7d", ""⟩,
        ⟨"A", "n", "n()\x7b\x7d", ""⟩] := by
  have h : Outline.read .typeScript
      "class A\x7bm()\x7bclass A\x7bn()\x7b\x7d\x7d\x7dk()\x7b\x7d\x7d".toList = .ok
        ⟨[⟨.classKind, "A", ⟨0, 33⟩, [⟨.method, some "m", ⟨8, 27⟩, ⟨8, 8⟩⟩,
            ⟨.method, some "k", ⟨27, 32⟩, ⟨27, 27⟩⟩], [1]⟩,
          ⟨.classKind, "A", ⟨12, 26⟩, [⟨.method, some "n", ⟨20, 25⟩, ⟨20, 20⟩⟩], []⟩], [0]⟩ := by
    decide +kernel
  rw [(extract_eq_methods h).2]
  decide +kernel

end SignatureDocs
