import SignatureDocs.Proofs.Storage.FileTree

/-!
Paths of the form of a directory and one more name. A name without slashes that is neither empty nor made of dots alone
adds one piece to a path, and one name to the place that the path leads to.
-/
namespace SignatureDocs

/-- A name that stands for one entry of a directory. -/
structure IsPlain (name : String) : Prop where
  noSlash : '/' ∉ name.toList
  ne_empty : name ≠ ""
  ne_dot : name ≠ "."
  ne_dots : name ≠ ".."

namespace Path

variable {base child : Path}

theorem pieces_append_slash (p q : Path) : pieces (p ++ "/" ++ q) = pieces p ++ pieces q := by
  have htext : (p ++ "/" ++ q).toList = p.toList ++ '/' :: q.toList := by simp
  have hsplit : (p.toList ++ '/' :: q.toList).splitOn '/' = p.toList.splitOn '/' ++ q.toList.splitOn '/' :=
    List.splitOnP_append_cons _ _ rfl
  unfold pieces
  rw [htext, hsplit, List.map_append]

theorem pieces_of_noSlash {p : Path} (h : '/' ∉ p.toList) : pieces p = [p] := by
  unfold pieces
  rw [List.splitOn_eq_singleton h]
  simp

theorem isAbsolute_of_noSlash {p : Path} (h : '/' ∉ p.toList) : isAbsolute p = false := by
  unfold isAbsolute
  apply decide_eq_false
  intro hhead
  exact h (List.mem_of_mem_head? hhead)

/-- A path that ends in a slash has an empty piece at its end. -/
theorem eq_append_slash {p : Path} (h : p.toList.getLast? = some '/') : ∃ q : Path, p = q ++ "/" := by
  obtain ⟨cs, hcs⟩ := List.getLast?_eq_some_iff.1 h
  refine ⟨String.ofList cs, ?_⟩
  apply String.toList_inj.1
  simp [hcs]

/-- A plain name comes behind the pieces of a path, in the place of an empty last one. -/
theorem pieces_join (h : '/' ∉ child.toList) :
    ∃ front, (pieces base = front ∨ pieces base = front ++ [""]) ∧ pieces (join base child) = front ++ [child] := by
  unfold join
  rw [if_neg (by simp [isAbsolute_of_noSlash h])]
  by_cases hempty : base = ""
  · -- nothing stands before the name
    subst hempty
    refine ⟨[], Or.inr (by decide), ?_⟩
    rw [if_pos (by simp), String.empty_append, pieces_of_noSlash h, List.nil_append]
  by_cases hslash : base.toList.getLast? = some '/'
  · obtain ⟨p, rfl⟩ := eq_append_slash hslash
    have hend : pieces (p ++ "/") = pieces p ++ [""] := by
      have hnothing : pieces "" = [""] := by decide
      rw [← hnothing, ← pieces_append_slash, String.append_empty]
    refine ⟨pieces p, Or.inr hend, ?_⟩
    rw [if_pos (by simp), pieces_append_slash, pieces_of_noSlash h]
  · refine ⟨pieces base, Or.inl rfl, ?_⟩
    rw [if_neg (by simp [hempty, hslash]), pieces_append_slash, pieces_of_noSlash h]

theorem isAbsolute_join (h : '/' ∉ child.toList) : isAbsolute (join base child) = isAbsolute base := by
  have hchild := isAbsolute_of_noSlash h
  unfold join
  rw [if_neg (by simp [hchild])]
  by_cases hempty : base = ""
  · subst hempty
    rw [if_pos (by simp), String.empty_append, hchild]
    rfl
  · obtain ⟨c, cs, hbase⟩ := List.exists_cons_of_ne_nil (fun hnil => hempty (String.toList_eq_nil_iff.1 hnil))
    unfold isAbsolute
    split_ifs <;> simp [hbase]

theorem components_join (h : IsPlain child) : components (join base child) = components base ++ [child] := by
  obtain ⟨front, hbase, hjoin⟩ := @pieces_join base child h.noSlash
  unfold components
  rw [isAbsolute_join h.noSlash, hjoin]
  split_ifs with habsolute
  · rcases hbase with hbase | hbase <;> simp [hbase, h.ne_empty, h.ne_dot]
  · cases front with
    | nil => rcases hbase with hbase | hbase <;> simp [hbase, h.ne_empty]
    | cons first rest => rcases hbase with hbase | hbase <;> simp [hbase, h.ne_empty, h.ne_dot]

theorem fileName?_join (h : IsPlain child) : fileName? (join base child) = some child := by
  unfold fileName?
  rw [components_join h, List.getLast?_append]
  simp only [List.getLast?_singleton, Option.some_or]
  split
  · next hdot => exact absurd (Option.some.inj hdot) h.ne_dot
  · next hdots => exact absurd (Option.some.inj hdots) h.ne_dots
  · next hnone => cases hnone
  · next hname => exact hname.symm

end Path

theorem Location.enter_of_isPlain {name : String} (h : IsPlain name) (l : Location) : l.enter name = l ++ [name] := by
  simp [Location.enter, h.ne_empty, h.ne_dot, h.ne_dots]

/-- A plain name leads from the place of a path to one directly inside it. -/
theorem FileTree.written_join {child : Path} (h : IsPlain child) (t : FileTree) (base : Path) :
    t.written (Path.join base child) = t.written base ++ [child] := by
  obtain ⟨front, hbase, hjoin⟩ := @Path.pieces_join base child h.noSlash
  have horigin : t.origin (Path.join base child) = t.origin base := by
    rw [origin, origin, Path.isAbsolute_join h.noSlash]
  have hfront : (Path.pieces base).foldl Location.enter (t.origin base) =
      front.foldl Location.enter (t.origin base) := by
    rcases hbase with hbase | hbase
    · rw [hbase]
    · rw [hbase, List.foldl_append]
      rfl
  rw [written, written, hjoin, horigin, hfront, List.foldl_append, List.foldl_cons, List.foldl_nil,
    Location.enter_of_isPlain h]

end SignatureDocs
