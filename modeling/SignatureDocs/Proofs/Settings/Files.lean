import SignatureDocs.Proofs.Except
import SignatureDocs.Proofs.Toml.Ordered

/-!
What the files of settings say. There are up to three of them, the user's, the project's and one that is named, and each
may be missing. What a file says depends only on what stands at its path.
-/
namespace SignatureDocs

open SignatureDocs.Text

/-- The fields of a file, if it is text of the right form. -/
def tomlFields? (bytes : List UInt8) : Option (List (String × Value)) := (decode? bytes).bind Toml.parse?

/-- The layer of an entry. -/
def Entry.layer (shown : String) : Entry → Except SettingsFault Layer
  | .directory => .ok []
  | .file bytes =>
    match tomlFields? bytes with
    | none => .error (.unreadable shown)
    | some fields => .ok (Layer.ofFile shown fields)

theorem Layer.ordered_ofFile (shown : String) {bytes : List UInt8} {fields : List (String × Value)}
    (h : tomlFields? bytes = some fields) : (Layer.ofFile shown fields).Ordered := by
  obtain ⟨cs, -, hparse⟩ := Option.bind_eq_some_iff.mp h
  have htable := Toml.parse?_ordered hparse
  exact Setting.tableOf_ofFields _ fields htable.2 htable.1

namespace FileTree

/-- What stands at a path, if there is a way to it. -/
def entry? (t : FileTree) (p : Path) : Option Entry :=
  match t.resolve p with
  | .ok q => q.2
  | .error _ => none

theorem isPresent_eq (t : FileTree) (p : Path) : t.isPresent p = (t.entry? p).isSome := by
  unfold isPresent entry?
  rcases t.resolve p with f | ⟨l, _ | e⟩ <;> rfl

theorem fileLayer_eq (t : FileTree) (p : Path) :
    fileLayer t p = ((t.entry? p).map (Entry.layer (t.shown p))).getD (.error (.unreadable (t.shown p))) := by
  unfold fileLayer isDirectory readText read entry?
  rcases t.resolve p with f | ⟨l, _ | bytes | _⟩
  · rfl
  · rfl
  · simp only [Bool.false_eq_true, if_false, Option.map_some, Option.getD_some, Entry.layer, tomlFields?]
    cases decode? bytes <;> rfl
  · rfl

theorem optionalLayer_eq (t : FileTree) (p : Path) :
    optionalLayer t p = ((t.entry? p).map (Entry.layer (t.shown p))).getD (.ok []) := by
  rw [optionalLayer, isPresent_eq, fileLayer_eq]
  cases t.entry? p <;> rfl

theorem fileLayer_of_isPresent {t : FileTree} {p : Path} (h : t.isPresent p = true) :
    fileLayer t p = optionalLayer t p := by
  rw [optionalLayer, if_pos h]

end FileTree

/-- What a file of settings says: nothing if there is no such file, if it is missing or if a directory is in its place,
else the fields of its text. Of a file that is no text of the right form nothing can be said. -/
inductive FileSays (t : FileTree) : Option Path → Layer → Prop where
  | unset : FileSays t none []
  | missing {p : Path} (entry : t.entry? p = none) : FileSays t (some p) []
  | directory {p : Path} (entry : t.entry? p = some .directory) : FileSays t (some p) []
  | file {p : Path} {bytes : List UInt8} {fields : List (String × Value)} (entry : t.entry? p = some (.file bytes))
      (text : tomlFields? bytes = some fields) : FileSays t (some p) (Layer.ofFile (t.shown p) fields)

section Says

variable {t : FileTree} {env : Environment} {named : Option Path} {l : Layer}

theorem FileSays.ordered {p : Option Path} (h : FileSays t p l) : l.Ordered := by
  cases h with
  | unset => exact TableOf.nil
  | missing => exact TableOf.nil
  | directory => exact TableOf.nil
  | file hentry htext => exact Layer.ordered_ofFile _ htext

theorem fileSays_none : FileSays t none l ↔ (.ok [] : Except SettingsFault Layer) = .ok l := by
  constructor
  · rintro ⟨⟩
    rfl
  · rintro ⟨⟩
    exact .unset

/-- A file that may be missing is read as what it says. -/
theorem fileSays_some {p : Path} : FileSays t (some p) l ↔ optionalLayer t p = .ok l := by
  rw [FileTree.optionalLayer_eq]
  constructor
  · intro h
    cases h with
    | missing hentry => rw [hentry]; rfl
    | directory hentry => rw [hentry]; rfl
    | file hentry htext => simp only [hentry, Option.map_some, Option.getD_some, Entry.layer, htext]
  · -- what stands at the path decides which of the cases it is
    cases hentry : t.entry? p with
    | none =>
      rintro ⟨⟩
      exact .missing hentry
    | some e =>
      cases e with
      | directory =>
        rintro ⟨⟩
        exact .directory hentry
      | file bytes =>
        intro h
        rw [Option.map_some, Option.getD_some, Entry.layer] at h
        cases htext : tomlFields? bytes with
        | none => simp [htext] at h
        | some fields =>
          obtain rfl : Layer.ofFile (t.shown p) fields = l := by simpa [htext] using h
          exact .file hentry htext

theorem fileLayers_eq (t : FileTree) (env : Environment) (named : Option Path) : fileLayers t env named =
    (((userFile? env).map (optionalLayer t)).getD (.ok [])).bind fun user =>
      (optionalLayer t projectFile).bind fun project =>
        ((named.map (fileLayer t)).getD (.ok [])).bind fun extra => .ok [user, project, extra] := by
  unfold fileLayers
  cases userFile? env <;> cases named <;> rfl

theorem fileSays_user : FileSays t (userFile? env) l ↔
    ((userFile? env).map (optionalLayer t)).getD (.ok []) = .ok l := by
  cases userFile? env with
  | none => exact fileSays_none
  | some p => exact fileSays_some

theorem fileSays_named (h : ∀ p, named = some p → t.isPresent p = true) :
    FileSays t named l ↔ (named.map (fileLayer t)).getD (.ok []) = .ok l := by
  cases named with
  | none => exact fileSays_none
  | some p =>
    rw [Option.map_some, Option.getD_some, FileTree.fileLayer_of_isPresent (h p rfl)]
    exact fileSays_some

/-- The three files are read in their order, from below. -/
theorem fileLayers_eq_ok (h : ∀ p, named = some p → t.isPresent p = true) {layers : List Layer} :
    fileLayers t env named = .ok layers ↔ ∃ user project extra, FileSays t (userFile? env) user ∧
      FileSays t (some projectFile) project ∧ FileSays t named extra ∧ layers = [user, project, extra] := by
  rw [fileLayers_eq]
  constructor
  · intro hlayers
    obtain ⟨user, huser, hlayers⟩ := exceptBind_ok hlayers
    obtain ⟨project, hproject, hlayers⟩ := exceptBind_ok hlayers
    obtain ⟨extra, hextra, hlayers⟩ := exceptBind_ok hlayers
    exact ⟨user, project, extra, fileSays_user.2 huser, fileSays_some.2 hproject, (fileSays_named h).2 hextra,
      (Except.ok.inj hlayers).symm⟩
  · rintro ⟨user, project, extra, huser, hproject, hextra, rfl⟩
    rw [fileSays_user.1 huser, fileSays_some.1 hproject, (fileSays_named h).1 hextra]
    rfl

theorem fileLayers_ordered {layers : List Layer} (h : fileLayers t env named = .ok layers) :
    ∀ l ∈ layers, l.Ordered := by
  by_cases hnamed : ∀ p, named = some p → t.isPresent p = true
  · obtain ⟨user, project, extra, huser, hproject, hextra, rfl⟩ := (fileLayers_eq_ok hnamed).1 h
    simp [huser.ordered, hproject.ordered, hextra.ordered]
  · -- a missing file cannot be read
    obtain ⟨p, hp⟩ := not_forall.1 hnamed
    obtain ⟨rfl, hmissing⟩ := Classical.not_imp.1 hp
    rw [fileLayers_eq] at h
    obtain ⟨user, -, h⟩ := exceptBind_ok h
    obtain ⟨project, -, h⟩ := exceptBind_ok h
    obtain ⟨extra, hextra, -⟩ := exceptBind_ok h
    rw [FileTree.isPresent_eq] at hmissing
    have hnone : t.entry? p = none := by simpa using hmissing
    simp [FileTree.fileLayer_eq, hnone] at hextra

end Says

end SignatureDocs
