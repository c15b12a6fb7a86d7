import SignatureDocs.Proofs.Method.Filter
import SignatureDocs.Proofs.Text.Blank

/-!
Lists of names as they are written, and the sets that they are read as. A list is cut at its commas and each piece is
freed of blanks, so neither the order of the names nor repetitions, blanks or empty pieces count. Every name that can
stand in a list is read back, and two lists with a comma between them are read as the union of their sets.
-/
namespace SignatureDocs.NameSet

open SignatureDocs.Text

/-- A name that a list holds as it is: there is something of it, no comma to cut it at, and no blank at its ends. -/
structure Listable (name : String) : Prop where
  ne_empty : name ≠ ""
  comma : ',' ∉ name.toList
  trimmed : Trimmed name.toList

theorem not_mem_of_mem_splitOn {sep : Char} {cs piece : List Char} (h : piece ∈ cs.splitOn sep) : sep ∉ piece := by
  induction cs generalizing piece with
  | nil =>
    obtain rfl : piece = [] := by simpa using h
    simp
  | cons c cs ih =>
    rw [List.splitOn, List.splitOnP_cons_eq_if_modifyHead, ← List.splitOn] at h
    split_ifs at h with hsep
    · rcases List.mem_cons.mp h with rfl | h
      · simp
      · exact ih h
    · obtain ⟨first, rest, hsplit⟩ := List.exists_cons_of_ne_nil (List.splitOn_ne_nil sep cs)
      rw [hsplit] at h ih
      rw [List.modifyHead_cons] at h
      rcases List.mem_cons.mp h with rfl | h
      · have hne : sep ≠ c := fun heq => hsep (by simp [heq])
        simpa [hne] using ih List.mem_cons_self
      · exact ih (List.mem_cons_of_mem first h)

/-- An entry of a list is a piece between commas, without the blanks at its ends. -/
theorem Listed.listable {raw name : String} (h : Listed raw name) : Listable name := by
  obtain ⟨hne, piece, hpiece, htrim⟩ := h
  refine ⟨hne, ?_, ?_⟩
  · intro hmem
    rw [← htrim] at hmem
    exact not_mem_of_mem_splitOn hpiece ((trim_sublist piece).subset hmem)
  · rw [← htrim]
    exact trimmed_trim piece

/-- A name is an entry of the list that it is itself if and only if the list neither cuts nor trims it. -/
theorem listed_self {name : String} : Listed name name ↔ Listable name := by
  constructor
  · exact Listed.listable
  · intro h
    refine ⟨h.ne_empty, name.toList, ?_, trimmed_iff.mp h.trimmed⟩
    rw [List.splitOn_eq_singleton h.comma]
    exact List.mem_singleton_self _

/-- Such a list has no other entry. -/
theorem listed_iff_eq {name other : String} (h : Listed name name) : Listed name other ↔ other = name := by
  constructor
  · rintro ⟨-, piece, hpiece, hother⟩
    have hname := h.listable
    rw [List.splitOn_eq_singleton hname.comma, List.mem_singleton] at hpiece
    rw [hpiece, trimmed_iff.mp hname.trimmed] at hother
    exact (String.toList_injective hother).symm
  · rintro rfl
    exact h

theorem insert_pairwise {s : NameSet} (h : s.Pairwise (· < ·)) (name : String) :
    (insert name s).Pairwise (· < ·) := by
  induction s with
  | nil => exact List.pairwise_singleton _ name
  | cons n ns ih =>
    obtain ⟨hn, hns⟩ := List.pairwise_cons.mp h
    unfold insert
    split_ifs with hlt heq
    · apply List.pairwise_cons.mpr
      refine ⟨?_, h⟩
      intro x hx
      rcases List.mem_cons.mp hx with rfl | hx
      · exact hlt
      · exact lt_trans hlt (hn x hx)
    · exact h
    · apply List.pairwise_cons.mpr
      refine ⟨?_, ih hns⟩
      intro x hx
      rcases mem_insert.mp hx with rfl | hx
      · exact lt_of_le_of_ne (not_lt.mp hlt) (Ne.symm heq)
      · exact hn x hx

theorem ofList_pairwise (names : List String) : (ofList names).Pairwise (· < ·) := by
  induction names with
  | nil => exact List.Pairwise.nil
  | cons n names ih => exact insert_pairwise ih n

/-- What is read from a list depends only on its entries. -/
theorem parse_eq_sort {raw : String} {names : Finset String} (h : ∀ name, Listed raw name ↔ name ∈ names) :
    parse raw = names.sort (· ≤ ·) := by
  apply List.Pairwise.eq_of_mem_iff (ofList_pairwise _) (names.sortedLT_sort.pairwise)
  intro name
  rw [Finset.mem_sort, ← h name]
  exact mem_parse

/-- What stands between two commas of a list: blanks, and a name among them or none. -/
structure Slot where
  before : List Char
  name? : Option String
  after : List Char
  before_blank : before.all isBlank
  after_blank : after.all isBlank

namespace Slot

/-- The name of a slot, nothing if it has none. -/
def bare (s : Slot) : List Char := (s.name?.map String.toList).getD []

/-- A slot as it is written. -/
def text (s : Slot) : List Char := s.before ++ s.bare ++ s.after

end Slot

/-- A list as it is written. -/
def written (slots : List Slot) : String := String.ofList ([','].intercalate (slots.map Slot.text))

/-- The names of a list. -/
def namesIn (slots : List Slot) : Finset String := (slots.filterMap Slot.name?).toFinset

theorem mem_namesIn {slots : List Slot} {name : String} : name ∈ namesIn slots ↔ ∃ s ∈ slots, s.name? = some name := by
  rw [namesIn, List.mem_toFinset, List.mem_filterMap]

namespace Slot

variable {s : Slot}

theorem comma_not_mem_text (h : ∀ name ∈ s.name?, Listable name) : ',' ∉ s.text := by
  have hblank {cs : List Char} (hcs : cs.all isBlank) : ',' ∉ cs := by
    intro hmem
    exact absurd (List.all_eq_true.mp hcs ',' hmem) (by decide)
  have hbare : ',' ∉ s.bare := by
    unfold bare
    cases hname : s.name? with
    | none => simp
    | some name => exact (h name hname).comma
  simp only [text, List.mem_append, not_or]
  exact ⟨⟨hblank s.before_blank, hbare⟩, hblank s.after_blank⟩

theorem trim_text (h : ∀ name ∈ s.name?, Listable name) : trim s.text = s.bare := by
  have hbare : Trimmed s.bare := by
    unfold bare
    cases hname : s.name? with
    | none => exact ⟨by simp, by simp⟩
    | some name => exact (h name hname).trimmed
  rw [text, trim_append_blanks (List.all_eq_true.mp s.after_blank), trim,
    List.dropWhile_append_of_pos (List.all_eq_true.mp s.before_blank)]
  exact trimmed_iff.mp hbare

theorem bare_eq_iff {name : String} (h : name ≠ "") : s.bare = name.toList ↔ s.name? = some name := by
  unfold bare
  cases s.name? with
  | none => simpa using Ne.symm h
  | some own => simp [String.toList_inj]

end Slot

/-- The entries of a list as it is written are its names. -/
theorem listed_written {slots : List Slot} (h : ∀ name ∈ namesIn slots, Listable name) (name : String) :
    Listed (written slots) name ↔ name ∈ namesIn slots := by
  have hslot : ∀ s ∈ slots, ∀ own ∈ s.name?, Listable own := by
    intro s hs own hown
    exact h own (mem_namesIn.mpr ⟨s, hs, hown⟩)
  by_cases hnil : slots = []
  · -- nothing is written, and the one piece of that is empty
    subst hnil
    simp [Listed, written, namesIn, trim]
  · have hcomma : ∀ piece ∈ slots.map Slot.text, ',' ∉ piece := by
      intro piece hpiece
      obtain ⟨s, hs, rfl⟩ := List.mem_map.mp hpiece
      exact Slot.comma_not_mem_text (hslot s hs)
    rw [Listed, written, String.toList_ofList, List.splitOn_intercalate ',' hcomma (by simpa using hnil), mem_namesIn]
    constructor
    · rintro ⟨hne, piece, hpiece, htrim⟩
      obtain ⟨s, hs, rfl⟩ := List.mem_map.mp hpiece
      rw [Slot.trim_text (hslot s hs)] at htrim
      exact ⟨s, hs, (Slot.bare_eq_iff hne).mp htrim⟩
    · rintro ⟨s, hs, hname⟩
      have hne := (hslot s hs name hname).ne_empty
      refine ⟨hne, s.text, List.mem_map_of_mem hs, ?_⟩
      rw [Slot.trim_text (hslot s hs)]
      exact (Slot.bare_eq_iff hne).mpr hname

/-- A comma between two lists cuts them apart. -/
theorem listed_append {a b name : String} : Listed (a ++ "," ++ b) name ↔ Listed a name ∨ Listed b name := by
  have hsplit : (a ++ "," ++ b).toList.splitOn ',' = a.toList.splitOn ',' ++ b.toList.splitOn ',' := by
    rw [String.toList_append, String.toList_append, List.append_assoc]
    exact List.splitOn_append_cons_self _ _
  simp only [Listed, hsplit, List.mem_append, or_and_right, exists_or, and_or_left]

/-- A set of names that lists can hold is read back from every list in which just these names are written, in any order
and any number of times, with any blanks around them and any empty entries. Only such names are ever read, and a list
that is two lists with a comma between them is read as the union of both. -/
theorem parse_written :
    (∀ names : Finset String, (∀ name ∈ names, Listable name) → ∀ slots, namesIn slots = names →
        parse (written slots) = names.sort (· ≤ ·)) ∧
      (∀ raw, ∀ name ∈ parse raw, Listable name) ∧
      ∀ a b, parse (a ++ "," ++ b) = ((parse a).toFinset ∪ (parse b).toFinset).sort (· ≤ ·) := by
  refine ⟨?_, ?_, ?_⟩
  · rintro names hnames slots rfl
    exact parse_eq_sort (listed_written hnames)
  · intro raw name hname
    exact (mem_parse.mp hname).listable
  · intro a b
    apply parse_eq_sort
    intro name
    rw [listed_append, Finset.mem_union, List.mem_toFinset, List.mem_toFinset, mem_parse, mem_parse]

/-- A list with an empty entry, blanks around a name, blanks alone, a name with a blank inside and a name again. -/
def paddedSlots : List Slot :=
  [⟨[], none, [], rfl, rfl⟩, ⟨[' '], some "b", ['\u3000'], rfl, rfl⟩, ⟨['\t'], none, ['\n'], rfl, rfl⟩,
    ⟨[], some "a c", [' '], rfl, rfl⟩, ⟨[], some "b", [], rfl, rfl⟩]

theorem parse_written_padded :
    written paddedSlots = ", b\u3000,\t\n,a c ,b" ∧
      parse (written paddedSlots) = ({"b", "a c"} : Finset String).sort (· ≤ ·) ∧
      Listable "x" ∧ parse ("x" ++ "," ++ " x") = ({"x"} : Finset String).sort (· ≤ ·) := by
  have hnames : ∀ name ∈ ({"b", "a c"} : Finset String), Listable name := by
    intro name hname
    rcases Finset.mem_insert.mp hname with rfl | hname
    · exact ⟨by decide, by decide, trimmed_iff.mpr (by decide)⟩
    · obtain rfl := Finset.mem_singleton.mp hname
      exact ⟨by decide, by decide, trimmed_iff.mpr (by decide)⟩
  obtain ⟨hread, hlistable, hunion⟩ := parse_written
  refine ⟨by decide, hread _ hnames paddedSlots (by decide), hlistable " x,," "x" (by decide), ?_⟩
  rw [hunion "x" " x"]
  exact congrArg (Finset.sort · _) (by decide)

end SignatureDocs.NameSet
