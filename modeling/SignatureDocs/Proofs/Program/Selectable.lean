import SignatureDocs.Program.Run
import SignatureDocs.Proofs.CommandLine.Target
import SignatureDocs.Proofs.Except
import SignatureDocs.Proofs.Grammar.MemberName
import SignatureDocs.Proofs.Method.Leading
import SignatureDocs.Proofs.Method.NameList
import SignatureDocs.Proofs.Program.Printed

/-!
Selecting methods by the names that are printed. The name of a method is printed as it is written in the source, and a
list of names is cut at commas and freed of blanks. So a method is left out or singled out by its printed name if and
only if there is no comma in the name and the next-line control is at neither end of it; only names in quotes or in
brackets have commas.
-/
namespace SignatureDocs

open SignatureDocs.Text SignatureDocs.Grammar

theorem membersFrom_name {source : List Char} {owner : DeclarationKind} {st : BodyState} {ts : List Tree} {m : Member}
    {name : String} (hm : m ∈ membersFrom source owner st ts) (hname : m.name = some name) :
    ∃ own ∈ ts, ∃ u ∈ own.children, u.part = .memberName ∧ name = textOf source u.span := by
  induction ts generalizing st with
  | nil => simp [membersFrom] at hm
  | cons t ts ih =>
    have hlater {st' : BodyState} (h : m ∈ membersFrom source owner st' ts) :
        ∃ own ∈ t :: ts, ∃ u ∈ own.children, u.part = .memberName ∧ name = textOf source u.span := by
      obtain ⟨own, hown, hu⟩ := ih h
      exact ⟨own, List.mem_cons_of_mem t hown, hu⟩
    obtain ⟨part, span, children⟩ := t
    cases part with
    | member form =>
      rw [membersFrom] at hm
      rcases List.mem_cons.mp hm with rfl | hm
      · obtain ⟨u, hu, rfl⟩ := Option.map_eq_some_iff.mp hname
        exact ⟨_, List.mem_cons_self, u, List.mem_of_find?_eq_some hu, by simpa using List.find?_some hu, rfl⟩
      · exact hlater hm
    | _ => exact hlater hm

theorem Declaration.methods_name {source : List Char} {s : Selection} {row : Declaration} {x : Method}
    (h : x ∈ row.methods source s) : ∃ m ∈ row.members, m.name = some x.methodName := by
  unfold Declaration.methods at h
  split_ifs at h
  · obtain ⟨m, hm, hx⟩ := List.mem_filterMap.1 h
    unfold Member.method? at hx
    split_ifs at hx
    obtain ⟨name, hname, rfl⟩ := Option.map_eq_some_iff.1 hx
    exact ⟨m, hm, (Option.filter_eq_some_iff.mp hname).1⟩
  · cases h

/-- The name of a method is the text of a key. -/
theorem extract_keyText {d : Dialect} {source : List Char} {s : Selection} {ms : List Method}
    (h : extract d source s = .ok ms) : ∀ x ∈ ms, KeyText x.methodName.toList := by
  obtain ⟨ts, c, r, hfile, hforest, rfl⟩ := extract_eq_ok h
  intro x hx
  obtain ⟨row, hrow, hx⟩ := List.mem_flatMap.1 hx
  obtain ⟨m, hm, hname⟩ := Declaration.methods_name hx
  obtain ⟨t, ht, hdecl⟩ := Outline.mem_declarations hforest hrow
  unfold declaration? at hdecl
  split at hdecl
  · next kind span children =>
    obtain ⟨named, -, hbare⟩ := Option.map_eq_some_iff.1 hdecl
    have hmembers : row.members = membersOf source kind children := (congrArg Declaration.members hbare).symm
    rw [hmembers, membersOf] at hm
    split at hm
    · cases hm
    · next body hbody =>
      -- from the file to the declaration, its body, the member and at last the name
      obtain ⟨own, hown, u, hu, hpart, heq⟩ := membersFrom_name hm hname
      have hbodyMem := mem_preorderAll_child ht (List.mem_of_find?_eq_some hbody)
      have hmem := mem_preorderAll_child (mem_preorderAll_child hbodyMem hown) hu
      obtain ⟨text, htext, hkey⟩ := readFile_memberName hfile u hmem hpart
      have hslice := slice?_eq_textOf (sound_of_mem_preorderAll hforest u hmem)
      rw [heq, ← Option.some.inj (htext.symm.trans hslice)]
      exact hkey
  · cases hdecl

/-- The lists filter what the whole declaration has. -/
theorem Target.extract_eq_filter (t : Target) (files : FileTree) :
    t.extract files = (Target.extract ⟨t.file, t.declarationName, none, none⟩ files).map
      (List.filter fun x => t.selection.filter.accepts x.methodName) := by
  have hwhole : (Target.mk t.file t.declarationName none none).selection = .whole t.declarationName := rfl
  unfold Target.extract extractFile
  cases files.readText t.file with
  | error f => rfl
  | ok source =>
    rw [hwhole]
    simp only
    rw [SignatureDocs.extract_eq_filter]
    change _ = Except.map _
      (((SignatureDocs.extract _ source (.whole t.selection.declarationName)).mapError _).mapError _)
    cases SignatureDocs.extract (Dialect.ofPath t.file) source (.whole t.selection.declarationName) <;> rfl

theorem Target.extract_keyText {t : Target} {files : FileTree} {ms : List Method} (h : t.extract files = .ok ms) :
    ∀ x ∈ ms, KeyText x.methodName.toList := by
  unfold Target.extract extractFile at h
  cases hsource : files.readText t.file with
  | error f =>
    rw [hsource] at h
    cases h
  | ok source =>
    rw [hsource] at h
    exact SignatureDocs.extract_keyText (exceptMapError_ok (exceptMapError_ok h))

/-- The command line for the methods of a declaration in a file, with more words behind it. -/
def extractLine (file declaration : String) (more : List String) : List String :=
  ["extract", "-f", file, "-c", declaration] ++ more

/-- What is printed for methods, in the usual layout. -/
def printedMethods (ms : List Method) : String := printed .pretty (.array (ms.map Method.toJson))

theorem listOfPrinted?_printedMethods (ms : List Method) : Method.listOfPrinted? (printedMethods ms) = some ms := by
  rw [Method.listOfPrinted?, printedMethods, readPrinted?_printed (Method.textual_list ms), Option.bind_some,
    Json.listOf?, Method.mapM_ofJson?]

section Runs

variable {machine : Machine} {w : World} {args : List String} {t : Target} {ms : List Method}

theorem runProgramOn_extract (hargs : CommandLine.parse args = .ok ⟨CommandLine.plainOptions, .extract t⟩)
    (hms : t.extract w.files = .ok ms) :
    (runProgramOn machine w args).exitCode = 0 ∧ (runProgramOn machine w args).stdout = printedMethods ms := by
  have hresult : (Invocation.runOn machine ⟨CommandLine.plainOptions, .extract t⟩ w).result =
      .ok (printedMethods ms) := by
    simp only [Invocation.runOn, runExtract, World.report, hms]
    rfl
  simp only [runProgramOn, hargs, hresult, and_self]

/-- Where methods can be read from what is printed, the line was understood and these are the methods. -/
theorem extract_of_printed {file declaration : String}
    (h : Method.listOfPrinted? (runProgramOn machine w (extractLine file declaration [])).stdout = some ms) :
    CommandLine.IsTarget file declaration ∧ Target.extract ⟨file, declaration, none, none⟩ w.files = .ok ms := by
  have hother : ∀ s ∈ ["", usageText, versionText], Method.listOfPrinted? s = none := by decide +kernel
  cases hargs : CommandLine.parse (extractLine file declaration []) with
  | error f =>
    have hstdout : (endWithUsage w f).stdout ∈ ["", usageText, versionText] := by
      cases f with
      | help => exact List.mem_cons_of_mem _ List.mem_cons_self
      | version => exact List.mem_cons_of_mem _ (List.mem_cons_of_mem _ List.mem_cons_self)
      | _ => exact List.mem_cons_self
    simp only [runProgramOn, hargs, hother _ hstdout] at h
    cases h
  | ok i =>
    obtain ⟨htarget, rfl⟩ := CommandLine.parse_target hargs
    refine ⟨htarget, ?_⟩
    cases hms : Target.extract ⟨file, declaration, none, none⟩ w.files with
    | error f =>
      have hstdout : (runProgramOn machine w (extractLine file declaration [])).stdout = "" := by
        simp only [runProgramOn, hargs, Invocation.runOn, runExtract, World.report, hms]
        rfl
      rw [hstdout, hother "" List.mem_cons_self] at h
      cases h
    | ok ms' =>
      rw [(runProgramOn_extract hargs hms).2, listOfPrinted?_printedMethods] at h
      exact congrArg Except.ok (Option.some.inj h)

variable {file declaration name : String}

/-- With lists of names a run prints the methods that the lists let through. -/
theorem runProgramOn_lists {includes excludes : Option String}
    (hargs : CommandLine.parse args = .ok ⟨CommandLine.plainOptions,
      .extract ⟨file, declaration, includes.map NameSet.parse, excludes.map NameSet.parse⟩⟩)
    (hms : Target.extract ⟨file, declaration, none, none⟩ w.files = .ok ms) :
    (runProgramOn machine w args).exitCode = 0 ∧ (runProgramOn machine w args).stdout =
      printedMethods (ms.filter fun x => decide (Admitted includes excludes x.methodName)) := by
  apply runProgramOn_extract hargs
  rw [Target.extract_eq_filter, hms]
  simp only [Target.selection, NameFilter.accepts_parse]
  rfl

theorem runProgramOn_excludes (machine : Machine) (htarget : CommandLine.IsTarget file declaration)
    (hms : Target.extract ⟨file, declaration, none, none⟩ w.files = .ok ms) (hname : CommandLine.IsValue name) :
    (runProgramOn machine w (extractLine file declaration ["-e", name])).exitCode = 0 ∧
      (runProgramOn machine w (extractLine file declaration ["-e", name])).stdout =
        printedMethods (ms.filter fun x => decide (¬ NameSet.Listed name x.methodName)) := by
  have hadmitted (other : String) : Admitted none (some name) other ↔ ¬ NameSet.Listed name other := by
    simp [Admitted]
  simp only [← hadmitted]
  exact runProgramOn_lists (CommandLine.parse_target_excludes htarget hname) hms

theorem runProgramOn_includes (machine : Machine) (htarget : CommandLine.IsTarget file declaration)
    (hms : Target.extract ⟨file, declaration, none, none⟩ w.files = .ok ms) (hname : CommandLine.IsValue name) :
    (runProgramOn machine w (extractLine file declaration ["-i", name])).exitCode = 0 ∧
      (runProgramOn machine w (extractLine file declaration ["-i", name])).stdout =
        printedMethods (ms.filter fun x => decide (NameSet.Listed name x.methodName)) := by
  have hadmitted (other : String) : Admitted (some name) none other ↔ NameSet.Listed name other := by
    simp [Admitted]
  simp only [← hadmitted]
  exact runProgramOn_lists (CommandLine.parse_target_includes htarget hname) hms

end Runs

/-- A name that a list of names holds as it is: there is no comma to cut it at, and at neither end a blank that a key
can have. -/
structure Selectable (name : String) : Prop where
  comma : ',' ∉ name.toList
  head : name.toList.head? ≠ some nextLine
  last : name.toList.getLast? ≠ some nextLine

theorem Grammar.KeyText.listed_self_iff {name : String} (h : KeyText name.toList) :
    NameSet.Listed name name ↔ Selectable name := by
  have hne : name ≠ "" := by
    rintro rfl
    exact h.ne_nil rfl
  rw [NameSet.listed_self]
  constructor
  · rintro ⟨-, hcomma, htrim⟩
    refine ⟨hcomma, fun hhead => ?_, fun hlast => ?_⟩
    · exact absurd (htrim.head _ hhead) (by decide)
    · exact absurd (htrim.last _ hlast) (by decide)
  · intro hname
    refine ⟨hne, hname.comma, fun c hc => ?_, fun c hc => ?_⟩
    · by_contra hblank
      exact hname.head ((h.eq_nextLine (.inl hc) (by simpa using hblank)) ▸ hc)
    · by_contra hblank
      exact hname.last ((h.eq_nextLine (.inr hc) (by simpa using hblank)) ▸ hc)

theorem printedMethods_inj {ms ms' : List Method} : printedMethods ms = printedMethods ms' ↔ ms = ms' := by
  constructor
  · intro h
    have hread := congrArg Method.listOfPrinted? h
    rw [listOfPrinted?_printedMethods, listOfPrinted?_printedMethods] at hread
    exact Option.some.inj hread
  · rintro rfl
    rfl

section Filters

variable {ms : List Method} {x : Method}

/-- Where the list does not name the method itself, the method stays. -/
theorem filter_not_listed_iff (hx : x ∈ ms) :
    (ms.filter fun y => decide (¬ NameSet.Listed x.methodName y.methodName)) =
      (ms.filter fun y => y.methodName ≠ x.methodName) ↔ NameSet.Listed x.methodName x.methodName := by
  constructor
  · intro h
    by_contra hlisted
    have hmem : x ∈ ms.filter fun y => y.methodName ≠ x.methodName := by
      rw [← h, List.mem_filter]
      exact ⟨hx, decide_eq_true hlisted⟩
    simp at hmem
  · intro hlisted
    simp only [NameSet.listed_iff_eq hlisted]

theorem filter_listed_iff (hx : x ∈ ms) :
    (ms.filter fun y => decide (NameSet.Listed x.methodName y.methodName)) =
      (ms.filter fun y => y.methodName = x.methodName) ↔ NameSet.Listed x.methodName x.methodName := by
  constructor
  · intro h
    have hmem : x ∈ ms.filter fun y => y.methodName = x.methodName := List.mem_filter.mpr ⟨hx, by simp⟩
    rw [← h] at hmem
    exact of_decide_eq_true (List.mem_filter.mp hmem).2
  · intro hlisted
    simp only [NameSet.listed_iff_eq hlisted]

end Filters

/-- For every method that is printed, its printed name can be given in a list. This leaves out the methods of that name
and nothing else, or singles them out, if and only if the name has no comma and no next-line control at its ends. A
name with a comma is in quotes or in brackets. -/
theorem runProgramOn_select {machine : Machine} {w : World} {file declaration : String} {ms : List Method}
    (h : Method.listOfPrinted? (runProgramOn machine w (extractLine file declaration [])).stdout = some ms)
    {x : Method} (hx : x ∈ ms) :
    let run := fun option => runProgramOn machine w (extractLine file declaration [option, x.methodName])
    (run "-e").exitCode = 0 ∧ (run "-i").exitCode = 0 ∧
      ((run "-e").stdout = printedMethods (ms.filter fun y => y.methodName ≠ x.methodName) ↔
        Selectable x.methodName) ∧
      ((run "-i").stdout = printedMethods (ms.filter fun y => y.methodName = x.methodName) ↔
        Selectable x.methodName) ∧
      (',' ∈ x.methodName.toList → x.methodName.toList.head? = some '"' ∨ x.methodName.toList.head? = some '\x27' ∨
        x.methodName.toList.head? = some '[') := by
  intro run
  obtain ⟨htarget, hms⟩ := extract_of_printed h
  have hkey := Target.extract_keyText hms x hx
  have hvalue : CommandLine.IsValue x.methodName := by
    intro c cs heq
    exact hkey.head?_ne_hyphen (by rw [heq]; rfl)
  obtain ⟨hexit, hout⟩ := runProgramOn_excludes machine htarget hms hvalue
  obtain ⟨hexit', hout'⟩ := runProgramOn_includes machine htarget hms hvalue
  refine ⟨hexit, hexit', ?_, ?_, hkey.of_comma⟩
  · rw [hout, printedMethods_inj, filter_not_listed_iff hx]
    exact hkey.listed_self_iff
  · rw [hout', printedMethods_inj, filter_listed_iff hx]
    exact hkey.listed_self_iff

/-- A world with a class in which one name has a comma. -/
def commaWorld : World :=
  ⟨⟨[(["a.ts"], .file (encode "class A \x7b 'a,b'() \x7b\x7d b() \x7b\x7d \x7d".toList))], []⟩, [], ⟨fun _ => none, []⟩⟩

/-- The methods of the class. -/
def commaMethods : List Method :=
  [⟨"A", "'a,b'", "'a,b'() \x7b\x7d", ""⟩, ⟨"A", "b", "b() \x7b\x7d", ""⟩]

theorem commaWorld_extract : Target.extract ⟨"a.ts", "A", none, none⟩ commaWorld.files = .ok commaMethods := by
  decide +kernel

theorem runProgramOn_commaWorld :
    (runProgramOn .sound commaWorld (extractLine "a.ts" "A" [])).stdout = printedMethods commaMethods := by
  have hargs : CommandLine.parse (extractLine "a.ts" "A" []) =
      .ok ⟨CommandLine.plainOptions, .extract ⟨"a.ts", "A", none, none⟩⟩ := by decide +kernel
  exact (runProgramOn_extract hargs commaWorld_extract).2

/-- The method with the plain name is left out and singled out by its name. -/
theorem runProgramOn_select_plain :
    (runProgramOn .sound commaWorld (extractLine "a.ts" "A" ["-e", "b"])).stdout =
        printedMethods (commaMethods.filter fun y => y.methodName ≠ "b") ∧
      (runProgramOn .sound commaWorld (extractLine "a.ts" "A" ["-i", "b"])).stdout =
        printedMethods (commaMethods.filter fun y => y.methodName = "b") := by
  have hprinted : Method.listOfPrinted? (runProgramOn .sound commaWorld (extractLine "a.ts" "A" [])).stdout =
      some commaMethods := by
    rw [runProgramOn_commaWorld, listOfPrinted?_printedMethods]
  have hb : (⟨"A", "b", "b() \x7b\x7d", ""⟩ : Method) ∈ commaMethods := List.mem_cons_of_mem _ List.mem_cons_self
  have hselectable : Selectable "b" := ⟨by decide, by decide, by decide⟩
  obtain ⟨-, -, hexcluded, hincluded, -⟩ := runProgramOn_select hprinted hb
  exact ⟨hexcluded.mpr hselectable, hincluded.mpr hselectable⟩

/-- The method with the comma is printed, but its name neither leaves it out nor singles it out. -/
theorem runProgramOn_comma :
    (runProgramOn .sound commaWorld (extractLine "a.ts" "A" [])).stdout = printedMethods commaMethods ∧
      (runProgramOn .sound commaWorld (extractLine "a.ts" "A" ["-e", "'a,b'"])).stdout =
        printedMethods commaMethods ∧
      (runProgramOn .sound commaWorld (extractLine "a.ts" "A" ["-i", "'a,b'"])).stdout = printedMethods [] := by
  have htarget : CommandLine.IsTarget "a.ts" "A" :=
    ⟨by simp [CommandLine.IsValue], by decide, by simp [CommandLine.IsValue]⟩
  have hname : CommandLine.IsValue "'a,b'" := by simp [CommandLine.IsValue]
  refine ⟨runProgramOn_commaWorld, ?_, ?_⟩
  · rw [(runProgramOn_excludes .sound htarget commaWorld_extract hname).2]
    exact congrArg printedMethods (by decide +kernel)
  · rw [(runProgramOn_includes .sound htarget commaWorld_extract hname).2]
    exact congrArg printedMethods (by decide +kernel)

end SignatureDocs
