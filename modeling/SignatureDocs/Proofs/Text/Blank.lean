import Mathlib
import SignatureDocs.Text.Blank

/-!
Texts without blanks at their ends, which are the texts that trimming gives and keeps.
-/
namespace SignatureDocs.Text

/-- A text without blanks at its ends. -/
structure Trimmed (cs : List Char) : Prop where
  head : ∀ c ∈ cs.head?, isBlank c = false
  last : ∀ c ∈ cs.getLast?, isBlank c = false

theorem trimmed_trim (cs : List Char) : Trimmed (trim cs) := by
  have htrim : trim cs = (cs.dropWhile isBlank).rdropWhile isBlank := rfl
  rw [htrim]
  refine ⟨fun c hc => ?_, fun c hc => ?_⟩
  · -- what is left starts as the text without its first blanks
    obtain ⟨tail, htail⟩ := List.rdropWhile_prefix isBlank (cs.dropWhile isBlank)
    have hhead := List.head?_dropWhile_not isBlank cs
    rw [← htail, List.head?_append, Option.mem_def.1 hc, Option.some_or] at hhead
    exact hhead
  · have hne : (cs.dropWhile isBlank).rdropWhile isBlank ≠ [] := by
      rintro hnil
      rw [hnil] at hc
      cases hc
    have hlast := List.rdropWhile_last_not isBlank (cs.dropWhile isBlank) hne
    rw [List.getLast?_eq_some_getLast hne, Option.mem_some_iff] at hc
    simpa [hc] using hlast

theorem trimmed_iff {cs : List Char} : Trimmed cs ↔ trim cs = cs := by
  refine ⟨fun h => ?_, fun h => h ▸ trimmed_trim cs⟩
  have hdrop : cs.dropWhile isBlank = cs := by
    cases cs with
    | nil => rfl
    | cons c cs => rw [List.dropWhile_cons_of_neg (by simp [h.head c rfl])]
  have htrim : trim cs = (cs.dropWhile isBlank).rdropWhile isBlank := rfl
  rw [htrim, hdrop, List.rdropWhile_eq_self_iff]
  intro hne
  simp [h.last _ (List.getLast?_eq_some_getLast hne)]

theorem trim_sublist (cs : List Char) : (trim cs).Sublist cs :=
  (List.rdropWhile_prefix isBlank (cs.dropWhile isBlank)).sublist.trans (List.dropWhile_sublist isBlank)

theorem trim_append_blanks {xs ys : List Char} (h : ∀ c ∈ ys, isBlank c = true) : trim (xs ++ ys) = trim xs := by
  have hys : ys.dropWhile isBlank = [] := List.dropWhile_eq_nil_iff.2 h
  rw [trim, trim, List.dropWhile_append]
  split_ifs with hempty
  · rw [hys, List.isEmpty_iff.1 hempty]
  · rw [List.reverse_append, List.dropWhile_append_of_pos (by simpa using h)]

end SignatureDocs.Text
