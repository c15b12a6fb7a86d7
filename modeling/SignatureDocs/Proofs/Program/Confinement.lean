import SignatureDocs.Proofs.Grammar.Naming
import SignatureDocs.Proofs.Method.Leading
import SignatureDocs.Proofs.Program.Frame
import SignatureDocs.Proofs.Storage.Path

/-!
Documentation stays in the output directory. The name of a declaration is a word of the text, and no word has a slash in
it; so the page of a declaration is one entry of the output directory, wherever that directory is.
-/
namespace SignatureDocs

open SignatureDocs.Text SignatureDocs.Grammar

/-- Names of declarations are words, so they can be names of files. -/
theorem Outline.declaration_name {d : Dialect} {source : List Char} {o : Outline} {row : Declaration}
    (h : Outline.read d source = .ok o) (hrow : row ∈ o.declarations) :
    row.name ≠ "" ∧ ∀ c ∈ row.name.toList, isFileChar c = true := by
  obtain ⟨ts, c, r, hread, hforest, rfl⟩ := Outline.read_eq_ok h
  obtain ⟨t, ht, hdeclaration⟩ := Outline.mem_declarations hforest hrow
  unfold declaration? at hdeclaration
  split at hdeclaration
  · next kind span children =>
    obtain ⟨name, hname, hbare⟩ := Option.map_eq_some_iff.1 hdeclaration
    have htext : row.name = textOf source name.span := (congrArg Declaration.name hbare).symm
    have hpart : name.part = .declarationName := by simpa using List.find?_some hname
    have hmem : name ∈ Tree.preorderAll ts := mem_preorderAll_child ht (List.mem_of_find?_eq_some hname)
    obtain ⟨x, hx, hne, hchars⟩ := readFile_declarationName hread name hmem hpart
    have hslice : (textOf source name.span).toList = x := by
      have hwhole := slice?_eq_textOf (sound_of_mem_preorderAll hforest name hmem)
      exact Option.some.inj (hwhole.symm.trans hx)
    rw [htext]
    refine ⟨fun hempty => hne ?_, ?_⟩
    · rw [← hslice, hempty]
      rfl
    · rwa [hslice]
  · cases hdeclaration

/-- The page of a name is one entry of the output directory: it is as absolute as the directory is, its path has one
more component, and in every tree it leads to a place directly inside that of the directory. -/
structure Page.Inside (dir : Path) (name : String) : Prop where
  isAbsolute : Path.isAbsolute (Page.path dir name) = Path.isAbsolute dir
  components : Path.components (Page.path dir name) = Path.components dir ++ [name ++ ".md"]
  fileName : Path.fileName? (Page.path dir name) = some (name ++ ".md")
  place : ∀ t : FileTree, t.written (Page.path dir name) = t.written dir ++ [name ++ ".md"]

theorem isPlain_page {name : String} (h : '/' ∉ name.toList) : IsPlain (name ++ ".md") := by
  have hlength : 3 ≤ (name ++ ".md").toList.length := by simp
  constructor
  case noSlash =>
    rw [String.toList_append, List.mem_append]
    rintro (hname | hsuffix)
    · exact h hname
    · revert hsuffix
      decide
  -- the others are too short
  all_goals
    intro heq
    rw [heq] at hlength
    revert hlength
    decide

theorem Page.inside {name : String} (h : '/' ∉ name.toList) (dir : Path) : Page.Inside dir name where
  isAbsolute := Path.isAbsolute_join (isPlain_page h).noSlash
  components := Path.components_join (isPlain_page h)
  fileName := Path.fileName?_join (isPlain_page h)
  place t := FileTree.written_join (isPlain_page h) t dir

/-- The methods of a target come from declarations of its name. -/
theorem Target.extract_declared {t : Target} {files : FileTree} {source : List Char} {o : Outline} {x : Method}
    {xs : List Method} (hsource : files.readText t.file = .ok source)
    (hread : Outline.read (Dialect.ofPath t.file) source = .ok o) (h : t.extract files = .ok (x :: xs)) :
    ∃ row ∈ o.declarations, row.name = t.declarationName := by
  unfold Target.extract extractFile at h
  simp only [hsource] at h
  cases hextract : SignatureDocs.extract (Dialect.ofPath t.file) source t.selection with
  | error f => simp [hextract, Except.mapError] at h
  | ok ms =>
    simp only [hextract, Except.mapError, Except.ok.injEq] at h
    subst h
    obtain ⟨ts, c, r, hfile, -, hmethods⟩ := extract_eq_ok hextract
    obtain ⟨ts', c', r', hfile', -, rfl⟩ := Outline.read_eq_ok hread
    obtain ⟨rfl, -⟩ := Outcome.accepted.inj (hfile.symm.trans hfile')
    obtain ⟨row, hrow, hx⟩ := List.mem_flatMap.1 (hmethods ▸ List.mem_cons_self)
    exact ⟨row, hrow, (Declaration.mem_methods hx).1⟩

/-- For every file that can be read and every output directory, the pages of its declarations are entries of the
directory; and whenever a file changes in making documentation, it is the page of one of them. -/
theorem Outline.pages_inside {d : Dialect} {source : List Char} {o : Outline} (h : Outline.read d source = .ok o) :
    (∀ row ∈ o.declarations, row.name ≠ "" ∧ '/' ∉ row.name.toList ∧ '\x00' ∉ row.name.toList ∧
      ∀ dir, Page.Inside dir row.name) ∧
    ∀ (machine : Machine) (w : World) (options : GlobalOptions) (t : Target) (g : GenerateOptions) (s : Settings)
      (l : Location), w.files.readText t.file = .ok source → Dialect.ofPath t.file = d →
      loadSettings w options = .ok s →
      (runGenerateOn machine w options t g).files.contentAt l ≠ w.files.contentAt l →
      (∃ row ∈ o.declarations, row.name = t.declarationName) ∧
        l = w.files.written (g.outDir.getD s.render.outputDir) ++ [t.declarationName ++ ".md"] := by
  have hinside : ∀ row ∈ o.declarations, row.name ≠ "" ∧ '/' ∉ row.name.toList ∧ '\x00' ∉ row.name.toList ∧
      ∀ dir, Page.Inside dir row.name := by
    intro row hrow
    obtain ⟨hne, hchars⟩ := Outline.declaration_name h hrow
    have hslash : '/' ∉ row.name.toList := fun hmem => absurd (hchars _ hmem) (by decide)
    have hnull : '\x00' ∉ row.name.toList := fun hmem => absurd (hchars _ hmem) (by decide)
    exact ⟨hne, hslash, hnull, Page.inside hslash⟩
  refine ⟨hinside, ?_⟩
  rintro machine w options t g s l hsource rfl hsettings hchanged
  have hplace : l = w.files.written (Page.path (g.outDir.getD s.render.outputDir) t.declarationName) :=
    (runGenerateOn_only hsettings).grown.of_contentAt_ne hchanged
  obtain ⟨result, hidle⟩ | ⟨s', x, xs, shown, c, hasks⟩ := idle_or_asks machine w options t g
  · -- nothing was asked for, so nothing changed
    rw [(Fruitless.idle hidle).files] at hchanged
    exact absurd rfl hchanged
  · obtain ⟨row, hrow, hname⟩ := Target.extract_declared hsource h hasks.methods
    refine ⟨⟨row, hrow, hname⟩, ?_⟩
    rw [hplace, ← hname]
    exact ((hinside row hrow).2.2.2 _).place w.files

/-- An escape in a name is kept as it is written: the page of a class named by an escaped slash is one entry too. -/
theorem Outline.pages_inside_escape : ∃ o row,
    Outline.read .typeScript "class \\u\x7b2f\x7d \x7b\x7d".toList = .ok o ∧ row ∈ o.declarations ∧
      row.name = "\\u\x7b2f\x7d" ∧
      Path.components (Page.path "/a/.." row.name) = ["a", "..", "\\u\x7b2f\x7d.md"] := by
  have hnames : ((Outline.read .typeScript "class \\u\x7b2f\x7d \x7b\x7d".toList).toOption.map fun o =>
      o.declarations.map Declaration.name) = some ["\\u\x7b2f\x7d"] := by decide +kernel
  cases hread : Outline.read .typeScript "class \\u\x7b2f\x7d \x7b\x7d".toList with
  | error f =>
    rw [hread] at hnames
    cases hnames
  | ok o =>
    rw [hread] at hnames
    have hrows : o.declarations.map Declaration.name = ["\\u\x7b2f\x7d"] := Option.some.inj hnames
    obtain ⟨row, hrow, hname⟩ := List.mem_map.1 (hrows ▸ List.mem_singleton_self "\\u\x7b2f\x7d")
    have hinside := ((Outline.pages_inside hread).1 row hrow).2.2.2 "/a/.."
    refine ⟨o, row, rfl, hrow, hname, hinside.components.trans ?_⟩
    rw [hname]
    decide

end SignatureDocs
