import SignatureDocs.CommandLine.Invocation
import SignatureDocs.Proofs.Outline.Walk

/-!
Filtering the methods of a file. The filter is asked before a method is cut out of the text, but what it leaves out
changes nothing about the others: the methods of a selection are those of the declaration, less the ones that the
filter refuses. Which ones these are depends only on the entries of the lists, however the lists are written.
-/
namespace SignatureDocs

open SignatureDocs.Text SignatureDocs.Grammar

namespace NameSet

theorem mem_insert {name x : String} {s : NameSet} : x ∈ insert name s ↔ x = name ∨ x ∈ s := by
  induction s with
  | nil => simp [insert]
  | cons n ns ih =>
    unfold insert
    split_ifs with hlt heq
    · exact List.mem_cons
    · -- the name is there already, so nothing is added
      subst heq
      simp
    · rw [List.mem_cons, ih, List.mem_cons]
      exact or_left_comm

theorem mem_ofList {names : List String} {x : String} : x ∈ ofList names ↔ x ∈ names := by
  induction names with
  | nil => rfl
  | cons n names ih =>
    have hcons : ofList (n :: names) = insert n (ofList names) := rfl
    rw [hcons, mem_insert, ih, List.mem_cons]

/-- A list as it is written has an entry for a name: one of its pieces between commas is the name, apart from blanks
around it. A piece that holds nothing else is no entry. -/
def Listed (raw name : String) : Prop :=
  name ≠ "" ∧ ∃ piece ∈ raw.toList.splitOn ',', trim piece = name.toList

instance (raw name : String) : Decidable (Listed raw name) :=
  inferInstanceAs (Decidable (_ ∧ _))

theorem mem_parse {raw name : String} : name ∈ parse raw ↔ Listed raw name := by
  rw [parse, mem_ofList, Listed]
  constructor
  · intro h
    obtain ⟨cs, hcs, rfl⟩ := List.mem_map.1 h
    obtain ⟨hmem, hne⟩ := List.mem_filter.1 hcs
    obtain ⟨piece, hpiece, rfl⟩ := List.mem_map.1 hmem
    refine ⟨?_, piece, hpiece, String.toList_ofList.symm⟩
    intro hempty
    rw [String.ofList_eq_empty_iff] at hempty
    simp [hempty] at hne
  · rintro ⟨hne, piece, hpiece, htrim⟩
    apply List.mem_map.2
    refine ⟨trim piece, List.mem_filter.2 ⟨List.mem_map_of_mem hpiece, ?_⟩, ?_⟩
    · rw [htrim]
      simpa using hne
    · rw [htrim, String.ofList_toList]

end NameSet

/-- The names that a command line lets through, by its two lists as they are written. -/
def Admitted (includes excludes : Option String) (name : String) : Prop :=
  (∀ raw ∈ excludes, ¬ NameSet.Listed raw name) ∧ ∀ raw ∈ includes, NameSet.Listed raw name

instance (includes excludes : Option String) : DecidablePred (Admitted includes excludes) := fun _ =>
  inferInstanceAs (Decidable (_ ∧ _))

theorem NameFilter.accepts_parse (includes excludes : Option String) (name : String) :
    (⟨includes.map NameSet.parse, (excludes.map NameSet.parse).getD []⟩ : NameFilter).accepts name =
      decide (Admitted includes excludes name) := by
  have hexcluded : (excludes.map NameSet.parse).getD [] = excludes.elim [] NameSet.parse := by
    cases excludes <;> rfl
  rw [Bool.eq_iff_iff, decide_eq_true_eq, Admitted, accepts, excluded, included, hexcluded]
  cases includes <;> cases excludes <;> simp [NameSet.mem_parse]

/-- Every method of a declaration. -/
def Selection.whole (declarationName : String) : Selection := ⟨declarationName, ⟨none, []⟩⟩

/-- The filter is asked about the name alone, so it can as well be asked about the finished method. -/
theorem Member.method?_eq_filter (source : List Char) (s : Selection) (declarationName : String) (m : Member) :
    m.method? source s declarationName =
      (m.method? source (.whole s.declarationName) declarationName).filter fun x => s.filter.accepts x.methodName := by
  have hwhole (name : String) : (Selection.whole s.declarationName).filter.accepts name = true := rfl
  unfold Member.method?
  by_cases hkind : m.kind = .method
  · rw [if_pos hkind, if_pos hkind]
    cases m.name with
    | none => rfl
    | some name =>
      have hname : (m.method source declarationName name).methodName = name := rfl
      rw [Option.filter_some_pos (hwhole name), Option.map_some, Option.filter_some, Option.filter_some, hname]
      cases s.filter.accepts name <;> rfl
  · rw [if_neg hkind, if_neg hkind]
    rfl

theorem Declaration.methods_eq_filter (source : List Char) (s : Selection) (row : Declaration) :
    row.methods source s =
      (row.methods source (.whole s.declarationName)).filter fun x => s.filter.accepts x.methodName := by
  have hwhole : (Selection.whole s.declarationName).declarationName = s.declarationName := rfl
  unfold Declaration.methods
  rw [hwhole]
  by_cases hname : row.name = s.declarationName
  · rw [if_pos hname, if_pos hname, List.filter_filterMap]
    apply List.filterMap_congr
    intro m _
    exact m.method?_eq_filter source s row.name
  · rw [if_neg hname, if_neg hname, List.filter_nil]

/-- The methods of a selection are those of its declaration that its filter accepts, and a text that cannot be read
has neither. -/
theorem extract_eq_filter (d : Dialect) (source : List Char) (s : Selection) :
    extract d source s = (extract d source (.whole s.declarationName)).map
      (List.filter fun x => s.filter.accepts x.methodName) := by
  unfold extract
  cases hread : Outline.read d source with
  | error f => rfl
  | ok o =>
    obtain ⟨ts, c, r, -, hforest, rfl⟩ := Outline.read_eq_ok hread
    -- both runs walk through the same outline, so they can be compared declaration by declaration
    have hmethods : methodsOf source s (outlineOf source ts) =
        (methodsOf source (.whole s.declarationName) (outlineOf source ts)).filter
          fun x => s.filter.accepts x.methodName := by
      rw [methodsOf_outlineOf hforest, methodsOf_outlineOf hforest, List.filter_flatMap]
      apply List.flatMap_congr
      intro row _
      exact row.methods_eq_filter source s
    exact congrArg Except.ok hmethods

/-- Two lists of names that are written differently but have the same entries. -/
def SameEntries (raw raw' : String) : Prop := ∀ name, NameSet.Listed raw name ↔ NameSet.Listed raw' name

theorem Admitted.congr {includes includes' excludes excludes' : Option String}
    (hi : Option.Rel SameEntries includes includes') (he : Option.Rel SameEntries excludes excludes') (name : String) :
    Admitted includes excludes name ↔ Admitted includes' excludes' name := by
  have hall {o o' : Option String} (h : Option.Rel SameEntries o o') :
      (∀ raw ∈ o, NameSet.Listed raw name) ↔ ∀ raw ∈ o', NameSet.Listed raw name := by
    cases h with
    | none => rfl
    | some h => simpa using h name
  have hnone {o o' : Option String} (h : Option.Rel SameEntries o o') :
      (∀ raw ∈ o, ¬ NameSet.Listed raw name) ↔ ∀ raw ∈ o', ¬ NameSet.Listed raw name := by
    cases h with
    | none => rfl
    | some h => simpa using not_congr (h name)
  exact and_congr (hnone he) (hall hi)

open CommandLine in
/-- What a command line asks for is what the whole declaration has, less the methods whose names the lists do not let
through, in the same order and unchanged. Only the entries of the lists count, and one that is in both lists is left
out. -/
theorem extract_targetOf (d : Dialect) (source : List Char) (s : Scan) :
    extract d source (targetOf s).selection = (extract d source (.whole (targetOf s).declarationName)).map
        (List.filter fun x => decide (Admitted (s.value? .includes) (s.value? .excludes) x.methodName)) ∧
      (∀ s' : Scan, s'.value? .declaration = s.value? .declaration →
        Option.Rel SameEntries (s'.value? .includes) (s.value? .includes) →
        Option.Rel SameEntries (s'.value? .excludes) (s.value? .excludes) →
        extract d source (targetOf s').selection = extract d source (targetOf s).selection) ∧
      ∀ name, (∃ raw ∈ s.value? .includes, NameSet.Listed raw name) →
        (∃ raw ∈ s.value? .excludes, NameSet.Listed raw name) →
        ∀ ms, extract d source (targetOf s).selection = .ok ms → ∀ x ∈ ms, x.methodName ≠ name := by
  have hfilter (s : Scan) : extract d source (targetOf s).selection =
      (extract d source (.whole (targetOf s).declarationName)).map
        (List.filter fun x => decide (Admitted (s.value? .includes) (s.value? .excludes) x.methodName)) := by
    rw [extract_eq_filter]
    simp only [Target.selection, targetOf, NameFilter.accepts_parse]
  refine ⟨hfilter s, ?_, ?_⟩
  · intro s' hname hincludes hexcludes
    have hdeclaration : (targetOf s').declarationName = (targetOf s).declarationName := by
      unfold targetOf
      rw [hname]
    rw [hfilter s', hfilter s, hdeclaration]
    simp only [Admitted.congr hincludes hexcludes]
  · rintro name - ⟨raw, hraw, hlisted⟩ ms hms x hx rfl
    rw [hfilter s] at hms
    cases hwhole : extract d source (.whole (targetOf s).declarationName) with
    | error f => simp [hwhole, Except.map] at hms
    | ok all =>
      rw [hwhole] at hms
      obtain rfl := Except.ok.inj hms
      have hwanted := of_decide_eq_true (List.mem_filter.1 hx).2
      exact hwanted.1 raw hraw hlisted

/-- A padded list with an entry twice, beside one that takes an entry of it back, and the same lists without blanks. -/
theorem extract_targetOf_spellings : ∃ s s' : CommandLine.Scan,
    s.value? .includes = some " n,m ,,n" ∧ s.value? .excludes = some "n,\t" ∧
    s'.value? .includes = some "m,n" ∧ s'.value? .excludes = some "n" ∧
    extract .typeScript "class A\x7b/** c */ m()\x7b\x7d n()\x7b\x7d k()\x7b\x7d\x7d".toList
      (CommandLine.targetOf s').selection = .ok [⟨"A", "m", "m()\x7b\x7d", "/** c */"⟩] := by
  have hsame {raw raw' : String} (h : NameSet.parse raw = NameSet.parse raw') : SameEntries raw raw' := by
    intro name
    rw [← NameSet.mem_parse, ← NameSet.mem_parse, h]
  let s : CommandLine.Scan := ⟨[(.declaration, "A"), (.includes, " n,m ,,n"), (.excludes, "n,\t")], none⟩
  let s' : CommandLine.Scan := ⟨[(.declaration, "A"), (.includes, "m,n"), (.excludes, "n")], none⟩
  obtain ⟨hfilter, hspelling, -⟩ := extract_targetOf .typeScript
    "class A\x7b/** c */ m()\x7b\x7d n()\x7b\x7d k()\x7b\x7d\x7d".toList s
  have hentries := hspelling s' rfl (.some (hsame (by decide +kernel))) (.some (hsame (by decide +kernel)))
  refine ⟨s, s', rfl, rfl, rfl, rfl, ?_⟩
  rw [hentries, hfilter]
  decide +kernel

end SignatureDocs
