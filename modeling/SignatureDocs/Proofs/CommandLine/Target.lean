import Mathlib
import SignatureDocs.CommandLine.Invocation

/-!
The command line for the methods of a declaration. A word can be the value of the option before it unless it looks like
an option itself. A line that names a file and a declaration is understood if and only if both words can be values and
the file is not empty, and one more option with a value can go behind them.
-/
namespace SignatureDocs.CommandLine

/-- A word that can be the value of the option before it. One that starts with a hyphen is an option itself, unless it
is the hyphen alone. -/
def IsValue (w : String) : Prop := ∀ c cs, w.toList ≠ '-' :: c :: cs

/-- Two words that can be given for a file and a declaration. -/
structure IsTarget (file declaration : String) : Prop where
  value : IsValue file
  ne_empty : file ≠ ""
  declared : IsValue declaration

namespace Scan

variable {o : Opt} {found : List (Opt × String)} {w : String} {ws : List String}

theorem words_value (hw : IsValue w) : words .extract false ⟨found, some (o, none)⟩ (w :: ws) =
    words .extract false ⟨found, some (o, some w)⟩ ws := by
  rw [words]
  split
  · next heq => simp at heq
  · rw [if_neg (by simp)]
    split
    · next heq => exact absurd heq (hw _ _)
    · next heq => exact absurd heq (hw _ _)
    · next heq => exact absurd heq (hw _ _)
    · rfl

theorem longWord_pending (o : Opt) (found : List (Opt × String)) (cs : List Char) :
    ∃ f, longWord .extract ⟨found, some (o, none)⟩ cs = .error f := by
  unfold longWord
  dsimp only
  split
  · exact ⟨_, rfl⟩
  · split_ifs <;> exact ⟨_, rfl⟩

theorem shortWord_pending (o : Opt) (found : List (Opt × String)) (c : Char) (cs : List Char) :
    ∃ f, shortWord .extract ⟨found, some (o, none)⟩ (c :: cs) = .error f := by
  unfold shortWord
  split
  · exact ⟨_, rfl⟩
  · split_ifs <;> exact ⟨_, rfl⟩

/-- What the words after a command come to. -/
def after (s : Scan) (ws : List String) : Except UsageFault Scan :=
  (words .extract false s ws).bind fun q => q.1.finish .extract

/-- An option that is still waiting for its value takes the next word, if that can be one, and nothing else. -/
theorem after_pending {s : Scan} (h : after ⟨found, some (o, none)⟩ (w :: ws) = .ok s) :
    IsValue w ∧ after ⟨found, some (o, some w)⟩ ws = .ok s := by
  by_cases hw : IsValue w
  · rw [after, words_value hw] at h
    exact ⟨hw, h⟩
  · exfalso
    obtain ⟨c, cs, hw⟩ : ∃ c cs, w.toList = '-' :: c :: cs := by simpa [IsValue] using hw
    rw [after, words] at h
    simp only [reduceCtorEq, decide_false, Bool.false_and, Bool.false_eq_true, if_false, hw] at h
    split at h
    · -- nothing may follow two hyphens, and without more words the option has no value
      cases ws with
      | nil => cases h
      | cons w' ws => cases h
    · next cs' _ _ =>
      obtain ⟨f, hf⟩ := longWord_pending o found cs'
      rw [hf] at h
      cases h
    · next c' cs' _ _ _ =>
      obtain ⟨f, hf⟩ := shortWord_pending o found c' cs'
      rw [hf] at h
      cases h
    · next h1 h2 h3 => exact h3 _ _ rfl

/-- The letter of an option that takes a value starts a new option, once the one before it is settled. -/
theorem after_letter {s : Scan} {c : Char} (hw : w.toList = ['-', c]) (hc : c ≠ '-')
    (ho : Scope.extract.short? c = some o) (htakes : o.takesValue = true) :
    after s (w :: ws) = s.settle.bind fun s' => after { s' with pending := some (o, none) } ws := by
  have hshort : shortWord .extract s [c] = s.option o none := by
    rw [shortWord, ho]
    simp [htakes]
  rw [after, words]
  simp only [reduceCtorEq, decide_false, Bool.false_and, Bool.false_eq_true, if_false, hw]
  split
  · next heq => exact absurd (List.cons.inj (List.cons.inj heq).2).1 hc
  · next heq => exact absurd (List.cons.inj (List.cons.inj heq).2).1 hc
  · next heq =>
    obtain ⟨rfl, rfl⟩ := List.cons.inj (List.cons.inj heq).2
    rw [hshort, option]
    cases s.settle with
    | error f => rfl
    | ok s' => rfl
  · next h => exact absurd rfl (h _ _)

theorem settle_value (v : String) : settle ⟨found, some (o, some v)⟩ = record ⟨found, none⟩ o v := rfl

/-- The words for a file and a declaration are taken in if and only if they can be values and the file is not empty. -/
theorem after_target {file declaration : String} {s : Scan} :
    after {} ("-f" :: file :: "-c" :: declaration :: ws) = .ok s ↔
      IsTarget file declaration ∧
        after ⟨[(.file, file)], some (.declaration, some declaration)⟩ ws = .ok s := by
  have hf {s : Scan} {ws : List String} := @after_letter .file "-f" ws s 'f' (by simp) (by decide) rfl rfl
  have hc {s : Scan} {ws : List String} := @after_letter .declaration "-c" ws s 'c' (by simp) (by decide) rfl rfl
  have hrecord : file ≠ "" → record ⟨[], none⟩ .file file = .ok ⟨[(.file, file)], none⟩ := by
    intro hne
    simp [record, has, Opt.accepts, hne]
  rw [hf]
  change after ⟨[], some (.file, none)⟩ (file :: "-c" :: declaration :: ws) = .ok s ↔ _
  constructor
  · intro h
    obtain ⟨hfile, h⟩ := after_pending h
    rw [hc, settle_value] at h
    by_cases hne : file = ""
    · subst hne
      cases h
    · rw [hrecord hne] at h
      obtain ⟨hdeclaration, h⟩ := after_pending h
      exact ⟨⟨hfile, hne, hdeclaration⟩, h⟩
  · rintro ⟨htarget, h⟩
    rw [after, words_value htarget.value, ← after, hc, settle_value, hrecord htarget.ne_empty]
    change after ⟨[(.file, file)], some (.declaration, none)⟩ (declaration :: ws) = .ok s
    rwa [after, words_value htarget.declared, ← after]

end Scan

theorem parse_extract (ws : List String) : parse ("extract" :: ws) =
    (Scan.after {} ws).map fun sub => ⟨globalOptions {} sub, commandOf .extract sub⟩ := by
  have hroot : Scan.words .root false {} ("extract" :: ws) = .ok ({}, some (.extract, ws)) := rfl
  unfold parse
  rw [hroot, Scan.after]
  cases hwords : Scan.words .extract false {} ws with
  | error f => simp [hwords, bind, Except.bind, Except.map]
  | ok q =>
    cases hfinish : q.1.finish .extract with
    | error f => simp [hwords, hfinish, bind, Except.bind, Except.map]
    | ok sub => simp [hwords, hfinish, bind, Except.bind, Except.map, Scan.settle]; rfl

/-- The options of a command line that gives none for all commands. -/
def plainOptions : GlobalOptions := ⟨.pretty, false, false, none⟩

section Lines

variable {file declaration : String}

theorem parse_target {i : Invocation} (h : parse ["extract", "-f", file, "-c", declaration] = .ok i) :
    IsTarget file declaration ∧ i = ⟨plainOptions, .extract ⟨file, declaration, none, none⟩⟩ := by
  rw [parse_extract] at h
  cases hafter : Scan.after {} ["-f", file, "-c", declaration] with
  | error f =>
    rw [hafter] at h
    cases h
  | ok s =>
    rw [hafter] at h
    obtain ⟨htarget, hs⟩ := Scan.after_target.mp hafter
    obtain rfl : (⟨[(.file, file), (.declaration, declaration)], none⟩ : Scan) = s := Except.ok.inj hs
    exact ⟨htarget, (Except.ok.inj h).symm⟩

/-- One more option with its value goes behind the target. -/
theorem parse_target_option (h : IsTarget file declaration) {w v : String} {c : Char} {o : Opt}
    (hw : w.toList = ['-', c]) (hc : c ≠ '-') (ho : Scope.extract.short? c = some o) (htakes : o.takesValue = true)
    (hfile : o ≠ .file) (hdeclaration : o ≠ .declaration) (haccepts : o.accepts v = true) (hv : IsValue v) :
    let s : Scan := ⟨[(.file, file), (.declaration, declaration), (o, v)], none⟩
    parse ["extract", "-f", file, "-c", declaration, w, v] = .ok ⟨globalOptions {} s, .extract (targetOf s)⟩ := by
  intro s
  have hnew : (⟨[(.file, file), (.declaration, declaration)], none⟩ : Scan).has o = false := by
    simp [Scan.has, hfile.symm, hdeclaration.symm]
  have hrecord : Scan.record ⟨[(.file, file), (.declaration, declaration)], none⟩ o v = .ok s := by
    simp [Scan.record, hnew, haccepts, s]
  have hfinish : Scan.finish .extract ⟨[(.file, file), (.declaration, declaration)], some (o, some v)⟩ = .ok s := by
    rw [Scan.finish, Scan.settle_value, hrecord]
    rfl
  have hafter : Scan.after ⟨[(.file, file)], some (.declaration, some declaration)⟩ [w, v] = .ok s := by
    rw [Scan.after_letter hw hc ho htakes]
    change Scan.after ⟨[(.file, file), (.declaration, declaration)], some (o, none)⟩ [v] = _
    rw [Scan.after, Scan.words_value hv]
    exact hfinish
  rw [parse_extract, Scan.after_target.mpr ⟨h, hafter⟩]
  rfl

/-- A list of names to leave out. -/
theorem parse_target_excludes (h : IsTarget file declaration) {v : String} (hv : IsValue v) :
    parse ["extract", "-f", file, "-c", declaration, "-e", v] =
      .ok ⟨plainOptions, .extract ⟨file, declaration, none, some (NameSet.parse v)⟩⟩ := by
  rw [@parse_target_option _ _ h "-e" v 'e' .excludes (by simp) (by decide) rfl rfl (by decide) (by decide) rfl hv]
  rfl

/-- A list of names to keep. -/
theorem parse_target_includes (h : IsTarget file declaration) {v : String} (hv : IsValue v) :
    parse ["extract", "-f", file, "-c", declaration, "-i", v] =
      .ok ⟨plainOptions, .extract ⟨file, declaration, some (NameSet.parse v), none⟩⟩ := by
  rw [@parse_target_option _ _ h "-i" v 'i' .includes (by simp) (by decide) rfl rfl (by decide) (by decide) rfl hv]
  rfl

end Lines

end SignatureDocs.CommandLine
