import SignatureDocs.Proofs.Settings.Variables
import SignatureDocs.Proofs.Storage.Related

/-!
What settings do not depend on. Of each layer only the sections are ever looked at. So two runs whose layers agree on
the sections end alike, with the same settings or with the same fault: neither a variable with the common start whose
key begins with some other word nor any further key of a file makes a difference.
-/
namespace SignatureDocs

open SignatureDocs.Text

/-- A table with ordered keys is known by what is under each key. -/
theorem KeysOrdered.ext {α : Type} {fields fields' : List (String × α)} (h : KeysOrdered fields)
    (h' : KeysOrdered fields') (hlookup : ∀ k, fields.lookup k = fields'.lookup k) : fields = fields' := by
  have hmem (q : String × α) : q ∈ fields ↔ q ∈ fields' := by
    constructor
    · intro hq
      exact mem_of_lookup_eq_some (hlookup q.1 ▸ h.lookup_of_mem hq)
    · intro hq
      exact mem_of_lookup_eq_some ((hlookup q.1).symm ▸ h'.lookup_of_mem hq)
  have hperm : fields.Perm fields' :=
    (List.perm_ext_iff_of_nodup h.nodup.of_map h'.nodup.of_map).mpr hmem
  have hasymm : ∀ q r : String × α, q ∈ fields → r ∈ fields' → q.1 < r.1 → r.1 < q.1 → q = r := by
    intro q r _ _ hqr hrq
    exact absurd hqr hrq.not_gt
  exact hperm.eq_of_pairwise hasymm (List.pairwise_map.mp h) (List.pairwise_map.mp h')

/-- A filter that looks at keys alone leaves what is under a key, or leaves nothing there. -/
theorem lookup_filter_key {α : Type} (keep : String → Bool) (k : String) (fields : List (String × α)) :
    (fields.filter fun q => keep q.1).lookup k = if keep k then fields.lookup k else none := by
  induction fields with
  | nil => simp
  | cons q rest ih =>
    obtain ⟨k', a⟩ := q
    rw [List.filter_cons, List.lookup_cons]
    by_cases hk : k = k'
    · subst hk
      cases hkeep : keep k <;> simp [hkeep, ih]
    · have hne : (k == k') = false := by simpa using hk
      cases hkeep : keep k' <;> simp [List.lookup_cons, hne, ih]

namespace Layer

/-- Two layers in order that say the same about every section. -/
structure Agree (l l' : Layer) : Prop where
  ordered : l.Ordered
  ordered' : l'.Ordered
  sections : ∀ c : Section, l.lookup c.key = l'.lookup c.key

theorem Agree.refl {l : Layer} (h : l.Ordered) : Agree l l := ⟨h, h, fun _ => rfl⟩

theorem Agree.overlay {below below' above above' : Layer} (hbelow : below.Agree below')
    (habove : above.Agree above') : (below.overlay above).Agree (below'.overlay above') := by
  refine ⟨hbelow.ordered.overlay habove.ordered, hbelow.ordered'.overlay habove.ordered', ?_⟩
  intro c
  rw [Layer.overlay, Layer.overlay, Setting.lookup_overlayFields habove.ordered.1,
    Setting.lookup_overlayFields habove.ordered'.1, hbelow.sections c, habove.sections c]

theorem Agree.foldl {below below' : Layer} {layers layers' : List Layer} (hbelow : below.Agree below')
    (h : List.Forall₂ Agree layers layers') :
    (layers.foldl Layer.overlay below).Agree (layers'.foldl Layer.overlay below') := by
  induction h generalizing below below' with
  | nil => exact hbelow
  | cons hl _ ih => exact ih (hbelow.overlay hl)

/-- The sections of a layer without what else is in it. -/
def sections (l : Layer) : Layer := l.filter fun q => Section.all.any fun c => c.key == q.1

theorem Agree.sections_eq {l l' : Layer} (h : l.Agree l') : l.sections = l'.sections := by
  apply (h.ordered.1.sublist List.filter_sublist).ext (h.ordered'.1.sublist List.filter_sublist)
  intro k
  rw [lookup_filter_key (fun k => Section.all.any fun c => c.key == k),
    lookup_filter_key (fun k => Section.all.any fun c => c.key == k)]
  split_ifs with hsection
  · obtain ⟨c, -, hc⟩ := List.any_eq_true.mp hsection
    obtain rfl : c.key = k := by simpa using hc
    exact h.sections c
  · rfl

end Layer

theorem settingsForm_set_of_ne {name : String} (h : ∀ c : Section, name ≠ c.key) (r : Settings) (s : Setting) :
    settingsForm.set r name s = .ok r := by
  unfold settingsForm
  dsimp only
  split
  · exact absurd rfl (h .render)
  · exact absurd rfl (h (.provider .openAi))
  · exact absurd rfl (h (.provider .anthropic))
  · rfl

theorem collect_sections (l : Layer) (r : Settings) :
    settingsForm.collect r (l.sections.map fun (k, s) => (k, k, s)) =
      settingsForm.collect r (l.map fun (k, s) => (k, k, s)) := by
  induction l generalizing r with
  | nil => rfl
  | cons q l ih =>
    obtain ⟨k, s⟩ := q
    rw [Layer.sections, List.filter_cons]
    split_ifs with hsection
    · rw [List.map_cons, List.map_cons, SectionForm.collect, SectionForm.collect]
      cases settingsForm.set r k s with
      | error e => rfl
      | ok r' => exact ih r'
    · -- a key that names no section is passed over
      have hne (c : Section) : k ≠ c.key := by
        intro hk
        exact hsection (List.any_eq_true.mpr ⟨c, c.mem_all, by simp [hk]⟩)
      rw [List.map_cons, SectionForm.collect, settingsForm_set_of_ne hne]
      exact ih r

theorem Layer.Agree.ofLayer_eq {l l' : Layer} (h : l.Agree l') : Settings.ofLayer l' = Settings.ofLayer l := by
  rw [Settings.ofLayer, Settings.ofLayer, ← collect_sections, ← h.sections_eq, collect_sections]

/-- The first segment of a key in lower case: what is before the first dot or the first two underscores. -/
def firstSegment : List Char → List Char
  | [] => []
  | '.' :: _ => []
  | '_' :: '_' :: _ => []
  | c :: cs => c.toLower :: firstSegment cs

/-- The name of a variable with the common start whose key begins with a word that is the key of no section. Neither
blanks around the name nor blanks around the key count. -/
def IsForeign (name : String) : Prop :=
  ∃ start key, trim name.toList = start ++ key ∧ asciiUpper (String.ofList start) = variableStart ∧
    ∀ c : Section, String.ofList (firstSegment (trim key)) ≠ c.key

/-- Lower case makes nothing but small letters. -/
theorem eq_of_toLower_eq {c d : Char} (h : c.toLower = d) (hd : d.isLower = false) : c = d := by
  grind [Char.toLower, Char.isLower]

theorem splitOn_dotted (cs : List Char) :
    ∃ rest, (dotted (cs.map Char.toLower)).splitOn '.' = firstSegment cs :: rest := by
  fun_induction firstSegment cs with
  | case1 => exact ⟨[], rfl⟩
  | case2 cs => exact ⟨_, List.splitOnP_cons_eq_if_modifyHead _ _⟩
  | case3 cs => exact ⟨_, List.splitOnP_cons_eq_if_modifyHead _ _⟩
  | case4 c cs hdot hunder ih =>
    obtain ⟨rest, hrest⟩ := ih
    have hdotted : dotted (c.toLower :: cs.map Char.toLower) = c.toLower :: dotted (cs.map Char.toLower) := by
      rw [dotted]
      intro cs' hc hcs
      obtain ⟨d, ds, rfl, hd, -⟩ := List.map_eq_cons_iff.mp hcs
      exact hunder ds (eq_of_toLower_eq hc (by decide)) (by rw [eq_of_toLower_eq hd (by decide)])
    have hne : (c.toLower == '.') = false := by
      rw [beq_eq_false_iff_ne]
      intro hc
      exact hdot (eq_of_toLower_eq hc (by decide))
    refine ⟨rest, ?_⟩
    rw [List.map_cons, hdotted, List.splitOn, List.splitOnP_cons_eq_if_modifyHead, if_neg (by simp [hne]),
      ← List.splitOn, hrest]
    rfl

namespace IsForeign

variable {name : String}

theorem variableSegments?_eq (h : IsForeign name) :
    ∃ k path, variableSegments? name = some (k :: path) ∧ ∀ c : Section, k ≠ c.key := by
  obtain ⟨start, key, hname, hstart, hsection⟩ := h
  obtain ⟨rest, hrest⟩ := splitOn_dotted (trim key)
  have hlength : start.length = variableStart.length := by
    simpa [asciiUpper] using congrArg String.length hstart
  refine ⟨String.ofList (firstSegment (trim key)), rest.map String.ofList, ?_, hsection⟩
  unfold variableSegments?
  simp only [hname, List.take_left' hlength, List.drop_left' hlength, if_pos hstart, hrest, List.map_cons]

theorem variablePath?_cases (h : IsForeign name) : variablePath? name = none ∨
    ∃ k path, variablePath? name = some (k :: path) ∧ ∀ c : Section, k ≠ c.key := by
  obtain ⟨k, path, hsegments, hk⟩ := h.variableSegments?_eq
  rw [variablePath?, hsegments, Option.filter_some]
  split_ifs with hempty
  · exact .inr ⟨k, path, rfl, hk⟩
  · exact .inl rfl

/-- Such a name is none of those that are looked up as they stand. -/
theorem ne_of_variableSegments? (h : IsForeign name) {other : String} (hother : variableSegments? other = none) :
    other ≠ name := by
  intro heq
  obtain ⟨k, path, hsegments, -⟩ := h.variableSegments?_eq
  rw [← heq, hother] at hsegments
  cases hsegments

theorem isNamed_eq_false (h : IsForeign name) (p : Provider) : p.isNamed name = false := by
  obtain ⟨start, key, hname, hstart, -⟩ := h
  have hchars : start.map Char.toUpper = variableStart.toList := by
    simpa [asciiUpper] using congrArg String.toList hstart
  have hupper : (asciiUpper (trimString name)).toList = variableStart.toList ++ key.map Char.toUpper := by
    simp [asciiUpper, trimString, hname, hchars]
  rw [Provider.isNamed, decide_eq_false_iff_not]
  intro heq
  rw [heq] at hupper
  -- the names of the keys of both providers begin with another letter
  have hhead := congrArg List.head? hupper
  cases p <;> simp [Provider.variableName, variableStart] at hhead

end IsForeign

namespace Layer

variable {l l' : Layer} {o : Origin}

theorem Agree.withVariable (h : l.Agree l') (q : List String × String) :
    (l.withVariable o q).Agree (l'.withVariable o q) := by
  have hnest := Setting.ordered_nest o q.1 (EnvValue.parse_ordered (trim q.2.toList))
  unfold Layer.withVariable
  cases hs : Setting.nest o q.1 (EnvValue.parse (trim q.2.toList)) with
  | given o' v => exact h
  | table o' fields => exact h.overlay (.refl (hs ▸ hnest).fields)

theorem Agree.foldl_withVariable (h : l.Agree l') (vars : List (List String × String)) :
    (vars.foldl (Layer.withVariable o) l).Agree (vars.foldl (Layer.withVariable o) l') := by
  induction vars generalizing l l' with
  | nil => exact h
  | cons q vars ih => exact ih (h.withVariable q)

/-- A variable of another key leaves the sections alone. -/
theorem agree_withVariable (h : l.Ordered) {k : String} (hk : ∀ c : Section, k ≠ c.key) (path : List String)
    (raw : String) : (l.withVariable o (k :: path, raw)).Agree l := by
  refine ⟨((Agree.refl h).withVariable (k :: path, raw)).ordered, h, ?_⟩
  intro c
  rw [withVariable_cons, lookup_putKey, if_neg (Ne.symm (hk c))]

end Layer

section Added

variable {name : String} (before after : Environment) (value : String)

theorem prefixedLayer_add (h : IsForeign name) :
    (prefixedLayer (before ++ (name, value) :: after)).Agree (prefixedLayer (before ++ after)) := by
  rw [prefixedLayer_eq, prefixedLayer_eq, Environment.assignments, Environment.assignments, List.filterMap_append,
    List.filterMap_append, List.filterMap_cons]
  rcases h.variablePath?_cases with hnone | ⟨k, path, hpath, hk⟩
  · rw [hnone]
    exact .refl (Layer.ordered_ofVariables _ _)
  · rw [hpath, Layer.ofVariables, Layer.ofVariables, List.foldl_append, List.foldl_append, Option.map_some,
      List.foldl_cons]
    -- the variables before it give one layer, and those after it keep what agrees
    apply Layer.Agree.foldl_withVariable
    apply Layer.agree_withVariable _ hk
    rw [← Layer.ofVariables]
    exact Layer.ordered_ofVariables _ _

theorem environmentLayer_add (h : IsForeign name) :
    (environmentLayer (before ++ (name, value) :: after)).Agree (environmentLayer (before ++ after)) := by
  have hraw (p : Provider) :
      Environment.rawKeys (before ++ (name, value) :: after) p = Environment.rawKeys (before ++ after) p := by
    simp [Environment.rawKeys, h.isNamed_eq_false p]
  have hkeys : keysLayer (before ++ (name, value) :: after) = keysLayer (before ++ after) := by
    rw [keysLayer_eq, keysLayer_eq, hraw, hraw]
  have hprefixed := prefixedLayer_add before after value h
  rw [environmentLayer, environmentLayer, hkeys]
  exact Layer.Agree.overlay (.refl (keysLayer_ordered _)) hprefixed

theorem userFile?_add (h : IsForeign name) :
    userFile? (before ++ (name, value) :: after) = userFile? (before ++ after) := by
  have hlookup {other : String} (hother : variableSegments? other = none) :
      List.lookup other (before ++ (name, value) :: after) = List.lookup other (before ++ after) := by
    have hne : (other == name) = false := by simpa using h.ne_of_variableSegments? hother
    rw [List.lookup_append, List.lookup_append, List.lookup_cons, hne]
  rw [userFile?, userFile?, hlookup (by decide +kernel), hlookup (by decide +kernel)]

end Added

/-- Two entries of which nothing that settings depend on is different: directories, or files that say the same about
every section. -/
inductive Entry.Alike : Entry → Entry → Prop
  | refl (e : Entry) : Alike e e
  | file {bytes bytes' : List UInt8} {fields fields' : List (String × Value)} (h : tomlFields? bytes = some fields)
    (h' : tomlFields? bytes' = some fields') (sections : ∀ c : Section, fields'.lookup c.key = fields.lookup c.key) :
    Alike (.file bytes) (.file bytes')

theorem Entry.Alike.sameKind {e e' : Entry} (h : e.Alike e') : e.SameKind e' := by
  cases h with
  | refl => exact .refl e
  | file _ _ _ => exact .file _ _

theorem Layer.lookup_ofFile (shown : String) (fields : List (String × Value)) (k : String) :
    (Layer.ofFile shown fields).lookup k = (fields.lookup k).map (Setting.ofValue (.file shown)) := by
  induction fields with
  | nil => rfl
  | cons q rest ih =>
    obtain ⟨k', v⟩ := q
    rw [Layer.ofFile, Setting.ofFields, List.lookup_cons, List.lookup_cons]
    cases k == k' with
    | true => rfl
    | false => exact ih

/-- Entries that are alike give layers that agree. -/
theorem Entry.Alike.layer {e e' : Entry} (h : e.Alike e') (shown : String) :
    SameOutcome Layer.Agree (e.layer shown) (e'.layer shown) := by
  cases h with
  | refl =>
    cases e with
    | directory => exact .ok (.refl TableOf.nil)
    | file bytes =>
      rw [Entry.layer]
      cases hfields : tomlFields? bytes with
      | none => exact .error _
      | some fields => exact .ok (.refl (Layer.ordered_ofFile shown hfields))
  | file hfields hfields' hsections =>
    rw [Entry.layer, Entry.layer, hfields, hfields']
    refine .ok ⟨Layer.ordered_ofFile shown hfields, Layer.ordered_ofFile shown hfields', ?_⟩
    intro c
    rw [Layer.lookup_ofFile, Layer.lookup_ofFile, hsections c]

namespace FileTree

variable {t t' : FileTree}

/-- Two trees that have alike entries in all places. -/
abbrev Alike (t t' : FileTree) : Prop := Related Entry.Alike t t'

namespace Alike

theorem refl (t : FileTree) : t.Alike t := Related.refl .refl t

theorem entry? (h : t.Alike t') (p : Path) : Option.Rel Entry.Alike (t.entry? p) (t'.entry? p) := by
  have hresolve := h.resolve (fun _ _ => Entry.Alike.sameKind) (.refl _) p
  unfold FileTree.entry?
  generalize t.resolve p = x, t'.resolve p = y at hresolve
  cases hresolve with
  | error f => exact .none
  | ok hplace => exact hplace.2

theorem isPresent (h : t.Alike t') (p : Path) : t'.isPresent p = t.isPresent p := by
  have hentry := h.entry? p
  rw [isPresent_eq, isPresent_eq]
  generalize t.entry? p = x, t'.entry? p = y at hentry ⊢
  cases hentry <;> rfl

theorem shown (h : t.Alike t') (p : Path) : t'.shown p = t.shown p := by
  rw [FileTree.shown, FileTree.shown, h.here]

theorem fileLayer (h : t.Alike t') (p : Path) :
    SameOutcome Layer.Agree (fileLayer t p) (SignatureDocs.fileLayer t' p) := by
  have hentry := h.entry? p
  rw [fileLayer_eq, fileLayer_eq, h.shown]
  generalize t.entry? p = x, t'.entry? p = y at hentry ⊢
  cases hentry with
  | none => exact .error _
  | some he => exact he.layer _

theorem optionalLayer (h : t.Alike t') (p : Path) :
    SameOutcome Layer.Agree (optionalLayer t p) (SignatureDocs.optionalLayer t' p) := by
  have hentry := h.entry? p
  rw [optionalLayer_eq, optionalLayer_eq, h.shown]
  generalize t.entry? p = x, t'.entry? p = y at hentry ⊢
  cases hentry with
  | none => exact .ok (.refl TableOf.nil)
  | some he => exact he.layer _

theorem fileLayers (h : t.Alike t') (env : Environment) (named : Option Path) :
    SameOutcome (List.Forall₂ Layer.Agree) (fileLayers t env named) (SignatureDocs.fileLayers t' env named) := by
  have hempty : SameOutcome Layer.Agree (.ok [] : Except SettingsFault Layer) (.ok []) := .ok (.refl TableOf.nil)
  have huser : SameOutcome Layer.Agree (((userFile? env).map (SignatureDocs.optionalLayer t)).getD (.ok []))
      (((userFile? env).map (SignatureDocs.optionalLayer t')).getD (.ok [])) := by
    cases userFile? env with
    | none => exact hempty
    | some p => exact h.optionalLayer p
  have hextra : SameOutcome Layer.Agree ((named.map (SignatureDocs.fileLayer t)).getD (.ok []))
      ((named.map (SignatureDocs.fileLayer t')).getD (.ok [])) := by
    cases named with
    | none => exact hempty
    | some p => exact h.fileLayer p
  rw [fileLayers_eq, fileLayers_eq]
  refine huser.bind fun hu => (h.optionalLayer projectFile).bind fun hp => hextra.bind fun he => ?_
  exact .ok (.cons hu (.cons hp (.cons he .nil)))

end Alike

/-- A file in the place of one that it is like gives a tree that is like the other. -/
theorem alike_put {l : Location} {bytes bytes' : List UInt8} (hfile : t.get? l = some (.file bytes))
    (h : (Entry.file bytes).Alike (.file bytes')) : t.Alike (t.put l (.file bytes')) := by
  have hl : l ≠ [] := by
    rintro rfl
    cases hfile
  refine ⟨rfl, fun l' => ?_⟩
  rw [get?_put t hl]
  split_ifs with heq
  · subst heq
    rw [hfile]
    exact .some h
  · exact (Alike.refl t).entries l'

end FileTree

/-- Trees that are alike and environments whose layers agree give the same, be it settings or a fault. -/
theorem Settings.load_congr {t t' : FileTree} {env env' : Environment} (ht : t.Alike t')
    (huser : userFile? env' = userFile? env) (henv : (environmentLayer env).Agree (environmentLayer env'))
    (named : Option Path) : Settings.load t' env' named = Settings.load t env named := by
  have hmissing : named.filter (!t'.isPresent ·) = named.filter (!t.isPresent ·) := by
    simp only [ht.isPresent]
  have hlayers := ht.fileLayers env named
  have hfiles : fileLayers t' env' named = fileLayers t' env named := by
    rw [fileLayers_eq, fileLayers_eq, huser]
  rw [Settings.load, Settings.load, hmissing, hfiles]
  cases named.filter (!t.isPresent ·) with
  | some p => rfl
  | none =>
    generalize fileLayers t env named = x, fileLayers t' env named = y at hlayers
    cases hlayers with
    | error f => rfl
    | @ok layers layers' h =>
      have hmerged := ((Layer.Agree.refl builtInLayer_ordered).foldl h).overlay henv
      simp only [List.foldl_append, List.foldl_cons, List.foldl_nil, hmerged.ofLayer_eq]

/-- A variable whose key begins with another word makes no difference, whatever its value is and wherever it stands,
and neither does a file in the place of another one that says the same about every section, whatever other keys it
has. The settings stay the same, and if there are none, so does the fault. -/
theorem Settings.load_foreign :
    (∀ (t : FileTree) (before after : Environment) (name value : String) (named : Option Path), IsForeign name →
      Settings.load t (before ++ (name, value) :: after) named = Settings.load t (before ++ after) named) ∧
    ∀ (t : FileTree) (env : Environment) (named : Option Path) (l : Location) (bytes bytes' : List UInt8)
      (fields fields' : List (String × Value)), t.get? l = some (.file bytes) →
      tomlFields? bytes = some fields → tomlFields? bytes' = some fields' →
      (∀ c : Section, fields'.lookup c.key = fields.lookup c.key) →
      Settings.load (t.put l (.file bytes')) env named = Settings.load t env named := by
  constructor
  · intro t before after name value named hforeign
    symm
    exact Settings.load_congr (.refl t) (userFile?_add before after value hforeign).symm
      (environmentLayer_add before after value hforeign) named
  · intro t env named l bytes bytes' fields fields' hfile hfields hfields' hsections
    exact Settings.load_congr (FileTree.alike_put hfile (.file hfields hfields' hsections)) rfl
      (.refl ((keysLayer_ordered env).overlay (prefixedLayer_ordered env))) named

/-- The level of the log with a table for its value, and a file with a table that is no section, beside a key and
beside a value that does not fit. -/
theorem Settings.load_foreign_log :
    let bytes := encode "[log]\nrender = 5".toList
    let t : FileTree := ⟨[([".sigdoc"], .directory), ([".sigdoc", "config.toml"], .file [])], []⟩
    let key := ("OPENAI_API_KEY", "k")
    let misfit := ("SIGDOC_RENDER", "5")
    (Settings.load t [key, ("SIGDOC_LOG.RENDER", "\x7bmodel=5\x7d")] none = Settings.load t [key] none ∧
      Settings.load (t.put [".sigdoc", "config.toml"] (.file bytes)) [key] none = Settings.load t [key] none ∧
      Settings.load t [key] none = .ok { openAi := { Provider.openAi.defaults with apiKey := "k" } }) ∧
    Settings.load (t.put [".sigdoc", "config.toml"] (.file bytes)) [misfit] none = Settings.load t [misfit] none ∧
      Settings.load t [misfit] none =
        .error (.misfit ⟨.invalidType "unsigned int `5`" .renderSection, ["render"], .prefixedVariable⟩) := by
  intro bytes t key misfit
  have hforeign : IsForeign "SIGDOC_LOG.RENDER" :=
    ⟨"SIGDOC_".toList, "LOG.RENDER".toList, by decide +kernel, by decide +kernel,
      by rintro (_ | _ | _) <;> decide +kernel⟩
  obtain ⟨fields, hfields, hsections⟩ : ∃ fields, tomlFields? bytes = some fields ∧
      ∀ c ∈ Section.all, (fields.lookup c.key).isNone := by
    have hall : (tomlFields? bytes).map (fun fields => Section.all.all fun c => (fields.lookup c.key).isNone) =
        some true := by
      decide +kernel
    obtain ⟨fields, hfields, hnone⟩ := Option.map_eq_some_iff.mp hall
    exact ⟨fields, hfields, List.all_eq_true.mp hnone⟩
  have hput (env : Environment) :=
    Settings.load_foreign.2 t env none [".sigdoc", "config.toml"] [] bytes [] fields rfl rfl hfields
      fun c => Option.isNone_iff_eq_none.mp (hsections c c.mem_all)
  exact ⟨⟨Settings.load_foreign.1 t [key] [] _ _ none hforeign, hput [key], by decide +kernel⟩, hput [misfit],
    by decide +kernel⟩

/-- Blanks around a name do not count: a key that is read as it stands begins with another word, and yet its value
takes the place of a section. -/
theorem Settings.load_render_blank :
    firstSegment "RENDER ".toList = "render ".toList ∧ (∀ c : Section, "render " ≠ c.key) ∧
      Settings.load ⟨[], []⟩ [("SIGDOC_RENDER ", "5")] none =
        .error (.misfit ⟨.invalidType "unsigned int `5`" .renderSection, ["render"], .prefixedVariable⟩) ∧
      Settings.load ⟨[], []⟩ [] none = .ok {} :=
  ⟨by decide +kernel, by rintro (_ | _ | _) <;> decide, by decide +kernel, by decide +kernel⟩

end SignatureDocs
