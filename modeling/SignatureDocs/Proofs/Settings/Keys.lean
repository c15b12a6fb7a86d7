import SignatureDocs.Proofs.Settings.EnvGrammar
import SignatureDocs.Proofs.Settings.Precedence

/-!
Keys of the providers from the environment. Each provider has a variable for its key, which lies over what files say.
What such a variable holds is read as a value, so it is a key only if it stands for a text, and the key that was meant
only if it stands for itself.
-/
namespace SignatureDocs

open SignatureDocs.Text EnvValue

/-- The variable that holds the key of a provider. -/
def Provider.variableName : Provider → String
  | openAi => "OPENAI_API_KEY"
  | anthropic => "CLAUDE_API_KEY"

/-- Is a name that of the variable of a provider? Neither case nor blanks at the ends count. -/
def Provider.isNamed (p : Provider) (name : String) : Bool := asciiUpper (trimString name) = p.variableName

/-- Is a name that of a variable that holds a key? -/
def isKeyName (name : String) : Bool := Provider.openAi.isNamed name || Provider.anthropic.isNamed name

namespace Environment

/-- The values of all variables that hold the key of a provider: its name may be spelled in different ways. -/
def rawKeys (env : Environment) (p : Provider) : List String :=
  (env.filter fun q => p.isNamed q.1).map Prod.snd

/-- The value of the variable that holds the key of a provider. -/
def key? (env : Environment) (p : Provider) : Option String := (env.rawKeys p).getLast?

/-- The environment without the variables that hold keys. -/
def withoutKeys (env : Environment) : Environment := env.filter fun q => !isKeyName q.1

theorem isKeyName_of_isNamed {p : Provider} {name : String} (h : p.isNamed name = true) : isKeyName name = true := by
  cases p <;> simp [isKeyName, h]

theorem lookup_withoutKeys (env : Environment) {name : String} (h : isKeyName name = false) :
    env.withoutKeys.lookup name = env.lookup name := by
  induction env with
  | nil => rfl
  | cons q env ih =>
    obtain ⟨k, v⟩ := q
    rw [withoutKeys, List.filter_cons, List.lookup_cons]
    cases hk : name == k with
    | true =>
      obtain rfl : name = k := by simpa using hk
      simp [h]
    | false =>
      split
      · rw [List.lookup_cons, hk]
        exact ih
      · exact ih

theorem key?_withoutKeys (env : Environment) (p : Provider) : env.withoutKeys.key? p = none := by
  have hnil : env.withoutKeys.rawKeys p = [] := by
    rw [rawKeys, List.map_eq_nil_iff, List.filter_eq_nil_iff]
    intro q hq hnamed
    have hother := (List.mem_filter.1 hq).2
    simp [isKeyName_of_isNamed hnamed] at hother
  rw [key?, hnil]
  rfl

end Environment

/-- The layer of some values for the key of a provider. -/
def keyLayer (p : Provider) (raws : List String) : Layer :=
  Layer.ofVariables .bareVariable (raws.map fun raw => ([p.sectionName, "api_key"], raw))

theorem keysLayer_eq (env : Environment) : keysLayer env =
    (keyLayer .openAi (env.rawKeys .openAi)).overlay (keyLayer .anthropic (env.rawKeys .anthropic)) := by
  simp only [keyLayer, Environment.rawKeys, List.map_map]
  rfl

theorem putKey_singleton {α : Type} (k : String) (a b : α) : putKey k a [(k, b)] = [(k, a)] := by
  simp [putKey]

theorem decodeText_ofValue (o : Origin) (v : Value) :
    ((Setting.ofValue o v).decodeText .text).toOption = text? v := by
  cases v <;> simp [Setting.ofValue, Setting.decodeText, text?, Setting.refuse, Except.toOption]

/-- The last value for a key counts. -/
theorem keyLayer_concat (p : Provider) (raws : List String) (raw : String) :
    ∃ s, keyLayer p (raws ++ [raw]) = [(p.sectionName, .table .bareVariable [("api_key", s)])] ∧
      (s.decodeText .text).toOption = text? (parse (trim raw.toList)) := by
  have hconcat (raws : List String) (raw : String) : keyLayer p (raws ++ [raw]) = (keyLayer p raws).overlay
      [(p.sectionName, .table .bareVariable
        [("api_key", Setting.ofValue .bareVariable (parse (trim raw.toList)))])] := by
    simp only [keyLayer, Layer.ofVariables, List.map_append, List.foldl_append]
    rfl
  induction raws using List.reverseRecOn generalizing raw with
  | nil => exact ⟨_, hconcat [] raw, decodeText_ofValue _ _⟩
  | append_singleton raws last ih =>
    obtain ⟨s, hs, -⟩ := ih last
    refine ⟨Setting.overlay s (Setting.ofValue .bareVariable (parse (trim raw.toList))), ?_, ?_⟩
    · rw [hconcat, hs]
      simp [Layer.overlay, Setting.overlayFields, Setting.overlay, putKey_singleton]
    · rw [← decodeText_ofValue .bareVariable]
      exact (Field.provider p .apiKey).decode_overlay s _

theorem keyLayer_of_key? {env : Environment} {p : Provider} {raw : String} (h : env.key? p = some raw) :
    ∃ s, keyLayer p (env.rawKeys p) = [(p.sectionName, .table .bareVariable [("api_key", s)])] ∧
      (s.decodeText .text).toOption = text? (parse (trim raw.toList)) := by
  obtain ⟨raws, hraws⟩ := List.getLast?_eq_some_iff.1 h
  rw [hraws]
  exact keyLayer_concat p raws raw

theorem keyLayer_of_key?_eq_none {env : Environment} {p : Provider} (h : env.key? p = none) :
    keyLayer p (env.rawKeys p) = [] := by
  rw [List.getLast?_eq_none_iff.1 h]
  rfl

theorem lookup_keyLayer_of_ne {env : Environment} {p : Provider} {k : String} (hk : k ≠ p.sectionName) :
    (keyLayer p (env.rawKeys p)).lookup k = none := by
  cases hkey : env.key? p with
  | none => rw [keyLayer_of_key?_eq_none hkey]; rfl
  | some raw =>
    obtain ⟨s, hs, -⟩ := keyLayer_of_key? hkey
    have hne : (k == p.sectionName) = false := by simpa using hk
    rw [hs, List.lookup_cons, hne]
    rfl

theorem keyLayer_ordered (p : Provider) (raws : List String) : (keyLayer p raws).Ordered :=
  Layer.ordered_ofVariables _ _

theorem lookup_keysLayer (env : Environment) (p : Provider) :
    (keysLayer env).lookup p.sectionName = (keyLayer p (env.rawKeys p)).lookup p.sectionName := by
  rw [keysLayer_eq, Layer.overlay, Setting.lookup_overlayFields (keyLayer_ordered _ _).1]
  cases p with
  | openAi => rw [lookup_keyLayer_of_ne (by decide)]
  | anthropic =>
    rw [lookup_keyLayer_of_ne (p := .openAi) (by decide)]
    cases (keyLayer .anthropic (env.rawKeys .anthropic)).lookup Provider.anthropic.sectionName <;> rfl

theorem lookup_keysLayer_render (env : Environment) : (keysLayer env).lookup Section.render.key = none := by
  rw [keysLayer_eq, Layer.overlay, Setting.lookup_overlayFields (keyLayer_ordered _ _).1,
    lookup_keyLayer_of_ne (by decide), lookup_keyLayer_of_ne (by decide)]

namespace Layer

variable {base : Layer} {env : Environment} {p : Provider}

theorem lookup_overlay_of_none (base : Layer) {k : String} (h : (keysLayer env).lookup k = none) :
    (base.overlay (keysLayer env)).lookup k = base.lookup k := by
  rw [Layer.overlay, Setting.lookup_overlayFields (keysLayer_ordered env).1, h]

theorem lookup_overlay_unkeyed (base : Layer) (h : env.key? p = none) :
    (base.overlay (keysLayer env)).lookup p.sectionName = base.lookup p.sectionName := by
  refine lookup_overlay_of_none base ?_
  rw [lookup_keysLayer, keyLayer_of_key?_eq_none h]
  rfl

/-- With a key in the environment the section of a provider is a table, with this key and with the address that was
there. -/
theorem lookup_overlay_key (base : Layer) {raw : String} (h : env.key? p = some raw) :
    ∃ o fields s, (base.overlay (keysLayer env)).lookup p.sectionName = some (.table o fields) ∧
      fields.lookup "api_key" = some s ∧ (s.decodeText .text).toOption = text? (parse (trim raw.toList)) ∧
      fields.lookup "base_url" = (base.lookup p.sectionName).bind (Setting.field? "base_url") := by
  obtain ⟨s, hs, htext⟩ := keyLayer_of_key? h
  have hordered : KeysOrdered [("api_key", s)] := List.pairwise_singleton _ _
  have hlookup : (base.overlay (keysLayer env)).lookup p.sectionName = some (((base.lookup p.sectionName).map
      fun b => Setting.overlay b (.table .bareVariable [("api_key", s)])).getD
        (.table .bareVariable [("api_key", s)])) := by
    rw [Layer.overlay, Setting.lookup_overlayFields (keysLayer_ordered env).1, lookup_keysLayer, hs,
      List.lookup_cons_self]
  rw [hlookup]
  cases hb : base.lookup p.sectionName with
  | none => exact ⟨_, _, s, rfl, rfl, htext, rfl⟩
  | some b =>
    cases b with
    | given o v => exact ⟨_, _, s, by rw [Option.map_some, Option.getD_some, Setting.overlay], rfl, htext, rfl⟩
    | table o fields =>
      refine ⟨o, Setting.overlayFields fields [("api_key", s)],
        ((fields.lookup "api_key").map fun b => Setting.overlay b s).getD s, ?_, ?_, ?_, ?_⟩
      · rw [Option.map_some, Option.getD_some, Setting.overlay]
      · rw [Setting.lookup_overlayFields hordered]
        rfl
      · cases fields.lookup "api_key" with
        | none => exact htext
        | some b => exact ((Field.provider p .apiKey).decode_overlay b s).trans htext
      · rw [Setting.lookup_overlayFields hordered]
        rfl

end Layer

/-- What a section has to be if the keys of some providers are given elsewhere: of their sections only the address
counts. -/
def Section.FitsUnder (keyed : Provider → Bool) : Section → Setting → Prop
  | .render, s => ∃ x, renderForm.decode s = .ok x
  | .provider p, s =>
    if keyed p then ∀ u, s.field? "base_url" = some u → ∃ url, u.decodeText .text = .ok url
    else ∃ x, (providerForm p).decode s = .ok x

/-- All sections of a layer fit, apart from the keys of some providers. -/
def Layer.FitsUnder (keyed : Provider → Bool) (l : Layer) : Prop :=
  ∀ (c : Section) (s : Setting), l.lookup c.key = some s → c.FitsUnder keyed s

theorem exists_ok_of_settled {β : Type} {decode : Setting → Except SettingFault β} {initial x : β} {s : Option Setting}
    (h : Settled decode initial s x) {v : Setting} (hv : s = some v) : ∃ y, decode v = .ok y := by
  subst hv
  exact ⟨x, h⟩

theorem exists_ok_iff_isSome {ε α : Type} {x : Except ε α} : (∃ a, x = .ok a) ↔ x.toOption.isSome := by
  cases x <;> simp [Except.toOption]

theorem decode_provider_iff {p : Provider} {o : Origin} {fields : List (String × Setting)}
    (hkeys : KeysOrdered fields) : (∃ x, (providerForm p).decode (.table o fields) = .ok x) ↔
      ∀ (f : ProviderField) (s : Setting), fields.lookup f.key = some s → ∃ t, s.decodeText .text = .ok t := by
  refine ⟨fun ⟨x, hx⟩ f s hs => ?_, fun hok => (providerForm_spec p).collect_isOk hkeys hok _⟩
  exact exists_ok_of_settled ((providerForm_spec p).collect_settled hkeys hx f) hs

theorem Layer.FitsUnder.of_all {l : Layer} (hord : l.Ordered) (h : l.FitsUnder fun _ => false)
    (keyed : Provider → Bool) : l.FitsUnder keyed := by
  intro c s hs
  cases c with
  | render => exact h .render s hs
  | provider p =>
    have hdecode : ∃ x, (providerForm p).decode s = .ok x := by simpa [Section.FitsUnder] using h (.provider p) s hs
    rw [Section.FitsUnder]
    split_ifs
    · intro u hu
      cases s with
      | given o v => cases hu
      | table o fields => exact (decode_provider_iff (hord.of_lookup hs).fields.1).1 hdecode .baseUrl u hu
    · exact hdecode

namespace Settings

variable {base : Layer} {env : Environment}

theorem ofLayer_isOk_iff {l : Layer} (hord : l.Ordered) : (∃ s, Settings.ofLayer l = .ok s) ↔
    ∀ (c : Section) (t : Setting), l.lookup c.key = some t → ∃ x, c.decode t = .ok x :=
  ⟨fun ⟨_, hs⟩ c _ ht => exists_ok_of_settled (ofLayer_section hord hs c) ht,
    fun hok => settingsForm_spec.collect_isOk hord.1 hok {}⟩

theorem decode_keyed_iff (hbase : base.Ordered) {p : Provider} {raw : String} (hraw : env.key? p = some raw) :
    (∀ t, (base.overlay (keysLayer env)).lookup p.sectionName = some t → ∃ x, (providerForm p).decode t = .ok x) ↔
      (∀ t, base.lookup p.sectionName = some t → (Section.provider p).FitsUnder (fun p => (env.key? p).isSome) t) ∧
        (text? (parse (trim raw.toList))).isSome := by
  obtain ⟨o, fields, s, hlookup, hs, hdecode, hurl⟩ := Layer.lookup_overlay_key base hraw
  have hkeys : KeysOrdered fields := ((hbase.overlay (keysLayer_ordered env)).of_lookup hlookup).fields.1
  have hfits (t : Setting) : (Section.provider p).FitsUnder (fun p => (env.key? p).isSome) t ↔
      ∀ u, t.field? "base_url" = some u → ∃ url, u.decodeText .text = .ok url := by
    simp [Section.FitsUnder, hraw]
  simp only [hlookup, Option.some.injEq, forall_eq', decode_provider_iff hkeys, hfits, ← hdecode,
    ← exists_ok_iff_isSome]
  refine ⟨fun h => ⟨fun t ht u hu => h .baseUrl u ?_, h .apiKey s hs⟩, fun ⟨hbelow, hkey⟩ f v hv => ?_⟩
  · rw [show fields.lookup ProviderField.baseUrl.key = _ from hurl, ht]
    exact hu
  · cases f with
    | apiKey =>
      obtain rfl : s = v := Option.some.inj (hs.symm.trans hv)
      exact hkey
    | baseUrl =>
      obtain ⟨t, ht, hu⟩ := Option.bind_eq_some_iff.1 (hurl.symm.trans hv)
      exact hbelow t ht v hu

/-- Under the keys of the environment a layer gives settings if and only if the keys are texts and the rest fits. -/
theorem ofLayer_keys_isOk_iff (hbase : base.Ordered) :
    (∃ s, Settings.ofLayer (base.overlay (keysLayer env)) = .ok s) ↔
      base.FitsUnder (fun p => (env.key? p).isSome) ∧
        ∀ p raw, env.key? p = some raw → (text? (parse (trim raw.toList))).isSome := by
  rw [ofLayer_isOk_iff (hbase.overlay (keysLayer_ordered env))]
  have hrender := Layer.lookup_overlay_of_none base (lookup_keysLayer_render env)
  have hunkeyed {p : Provider} (h : env.key? p = none) (t : Setting) :
      (Section.provider p).FitsUnder (fun p => (env.key? p).isSome) t ↔ ∃ x, (providerForm p).decode t = .ok x := by
    simp [Section.FitsUnder, h]
  refine ⟨fun h => ⟨fun c t ht => ?_, fun p raw hraw => ((decode_keyed_iff hbase hraw).1 (h (.provider p))).2⟩,
    fun ⟨hfits, htext⟩ c t ht => ?_⟩
  · cases c with
    | render => exact h .render t (hrender.trans ht)
    | provider p =>
      cases hraw : env.key? p with
      | none => exact (hunkeyed hraw t).2 (h (.provider p) t ((Layer.lookup_overlay_unkeyed base hraw).trans ht))
      | some raw => exact ((decode_keyed_iff hbase hraw).1 (h (.provider p))).1 t ht
  · cases c with
    | render => exact hfits .render t (hrender.symm.trans ht)
    | provider p =>
      cases hraw : env.key? p with
      | none =>
        exact (hunkeyed hraw t).1 (hfits (.provider p) t ((Layer.lookup_overlay_unkeyed base hraw).symm.trans ht))
      | some raw => exact (decode_keyed_iff hbase hraw).2 ⟨hfits (.provider p), htext p raw hraw⟩ t ht

/-- The key in the environment is the key of the provider. -/
theorem ofLayer_keys_apiKey (hbase : base.Ordered) {s : Settings}
    (h : Settings.ofLayer (base.overlay (keysLayer env)) = .ok s) {p : Provider} {raw : String}
    (hraw : env.key? p = some raw) : text? (parse (trim raw.toList)) = some (s.ofProvider p).apiKey := by
  have hord := hbase.overlay (keysLayer_ordered env)
  obtain ⟨o, fields, k, hlookup, hk, hdecode, -⟩ := Layer.lookup_overlay_key base hraw
  have hsection := ofLayer_section hord h (.provider p)
  rw [show (base.overlay (keysLayer env)).lookup (Section.provider p).key = _ from hlookup] at hsection
  have hsettled := (providerForm_spec p).collect_settled (hord.of_lookup hlookup).fields.1 hsection .apiKey
  rw [show fields.lookup ProviderField.apiKey.key = _ from hk] at hsettled
  rw [← hdecode, show k.decodeText .text = .ok (s.ofProvider p).apiKey from hsettled]
  rfl

end Settings

/-- The file that is named is there, all files can be read, and what they say fits, apart from the keys that variables
hold. -/
def FilesFit (t : FileTree) (env : Environment) (named : Option Path) : Prop :=
  named.filter (!t.isPresent ·) = none ∧ ∃ layers, fileLayers t env named = .ok layers ∧
    (layers.foldl Layer.overlay builtInLayer).FitsUnder fun p => (env.key? p).isSome

section Loading

variable {t : FileTree} {env : Environment} {named : Option Path}

theorem fileLayers_congr {env' : Environment}
    (h : ∀ {name}, isKeyName name = false → env'.lookup name = env.lookup name) :
    fileLayers t env' named = fileLayers t env named := by
  have huser : userFile? env' = userFile? env := by
    rw [userFile?, userFile?, h (by decide), h (by decide)]
  rw [fileLayers_eq, fileLayers_eq, huser]

theorem prefixedLayer_eq_nil (h : ∀ q ∈ env, variablePath? q.1 = none) : prefixedLayer env = [] := by
  rw [prefixedLayer, List.filterMap_eq_nil_iff.2]
  · rfl
  · intro q hq
    simp [h q hq]

theorem foldl_fileLayers_ordered {layers : List Layer} (h : fileLayers t env named = .ok layers) :
    (layers.foldl Layer.overlay builtInLayer).Ordered :=
  List.foldlRecOn layers _ builtInLayer_ordered fun _ hbelow _ hl => hbelow.overlay (fileLayers_ordered h _ hl)

theorem load_eq_ok_iff (hprefixed : ∀ q ∈ env, variablePath? q.1 = none) {s : Settings} :
    Settings.load t env named = .ok s ↔ named.filter (!t.isPresent ·) = none ∧ ∃ layers,
      fileLayers t env named = .ok layers ∧
        Settings.ofLayer ((layers.foldl Layer.overlay builtInLayer).overlay (keysLayer env)) = .ok s := by
  have henv : environmentLayer env = keysLayer env := by
    rw [environmentLayer, prefixedLayer_eq_nil hprefixed, Layer.overlay, Setting.overlayFields]
  rw [Settings.load]
  cases named.filter (!t.isPresent ·) with
  | some p => simp
  | none =>
    cases fileLayers t env named with
    | error f => simp
    | ok layers =>
      simp only [henv, List.foldl_append, List.foldl_cons, List.foldl_nil, true_and, Except.ok.injEq, exists_eq_left']
      exact ⟨exceptMapError_ok, fun h => by rw [h]; rfl⟩

theorem load_isOk_iff (hprefixed : ∀ q ∈ env, variablePath? q.1 = none) :
    (∃ s, Settings.load t env named = .ok s) ↔ FilesFit t env named ∧
      ∀ p raw, env.key? p = some raw → (text? (parse (trim raw.toList))).isSome := by
  simp only [load_eq_ok_iff hprefixed]
  constructor
  · rintro ⟨s, hnamed, layers, hfiles, hs⟩
    obtain ⟨hfits, htext⟩ := (Settings.ofLayer_keys_isOk_iff (foldl_fileLayers_ordered hfiles)).1 ⟨s, hs⟩
    exact ⟨⟨hnamed, layers, hfiles, hfits⟩, htext⟩
  · rintro ⟨⟨hnamed, layers, hfiles, hfits⟩, htext⟩
    obtain ⟨s, hs⟩ := (Settings.ofLayer_keys_isOk_iff (foldl_fileLayers_ordered hfiles)).2 ⟨hfits, htext⟩
    exact ⟨s, hnamed, layers, hfiles, hs⟩

theorem load_apiKey (hprefixed : ∀ q ∈ env, variablePath? q.1 = none) {s : Settings}
    (h : Settings.load t env named = .ok s) {p : Provider} {raw : String} (hraw : env.key? p = some raw) :
    text? (parse (trim raw.toList)) = some (s.ofProvider p).apiKey := by
  obtain ⟨-, layers, hfiles, hs⟩ := (load_eq_ok_iff hprefixed).1 h
  exact Settings.ofLayer_keys_apiKey (foldl_fileLayers_ordered hfiles) hs hraw

/-- Files that are right without the variables of keys fit with them. -/
theorem filesFit_of_withoutKeys (hprefixed : ∀ q ∈ env, variablePath? q.1 = none)
    (h : ∃ s, Settings.load t env.withoutKeys named = .ok s) : FilesFit t env named := by
  have hprefixed' : ∀ q ∈ env.withoutKeys, variablePath? q.1 = none := fun q hq =>
    hprefixed q (List.mem_of_mem_filter hq)
  obtain ⟨⟨hnamed, layers, hfiles, hfits⟩, -⟩ := (load_isOk_iff hprefixed').1 h
  rw [fileLayers_congr env.lookup_withoutKeys] at hfiles
  simp only [Environment.key?_withoutKeys, Option.isSome_none] at hfits
  exact ⟨hnamed, layers, hfiles, hfits.of_all (foldl_fileLayers_ordered hfiles) _⟩

/-- Without variables of the common start, settings are loaded if and only if the files fit and no variable of a key is
wholly a value that is no text. Of files that are right on their own the first is true, whatever keys they give. The
key of a provider is then the text that its variable stands for; if the variable has no blanks at its ends, this is the
variable as it is if and only if it is not wholly some other value. -/
theorem Settings.load_keys (hprefixed : ∀ q ∈ env, variablePath? q.1 = none) :
    ((∃ s, Settings.load t env named = .ok s) ↔ FilesFit t env named ∧ ∀ p raw, env.key? p = some raw →
      ∀ v, Reads (trim raw.toList) v [] → (text? v).isSome) ∧
    ((∃ s, Settings.load t env.withoutKeys named = .ok s) → FilesFit t env named) ∧
    ∀ s, Settings.load t env named = .ok s → ∀ p raw, env.key? p = some raw →
      (∀ v, Reads (trim raw.toList) v [] → text? v = some (s.ofProvider p).apiKey) ∧
      (Trimmed raw.toList →
        ((s.ofProvider p).apiKey = raw ↔ ∀ v, Reads raw.toList v [] → v = .text raw)) := by
  refine ⟨?_, filesFit_of_withoutKeys hprefixed, fun s hs p raw hraw => ⟨fun v hv => ?_, fun htrim => ?_⟩⟩
  · simp only [load_isOk_iff hprefixed, (trimmed_trim _).text?_parse_isSome_iff]
  · rw [← (trimmed_trim _).parse_of_reads hv]
    exact load_apiKey hprefixed hs hraw
  · have hkey := load_apiKey hprefixed hs hraw
    rw [trimmed_iff.1 htrim] at hkey
    have hself := htrim.text?_parse_eq_self_iff
    rw [hkey, String.ofList_toList] at hself
    rw [← hself, Option.some.injEq]

end Loading

/-- A key with a comma stays as it is, over a file whose key is no text, and a key in apostrophes loses them. -/
theorem Settings.load_keys_comma : ∃ (t : FileTree) (env : Environment) (s : Settings),
    Settings.load t env none = .ok s ∧ FilesFit t env none ∧ s.openAi.apiKey = "sk-1,2" ∧
      (∀ v, Reads "sk-1,2".toList v [] → v = .text "sk-1,2") ∧ s.anthropic.apiKey = "c" ∧
      ¬ ∀ v, Reads "\x27c\x27".toList v [] → v = .text "\x27c\x27" := by
  let t : FileTree := ⟨[([".sigdoc"], .directory), ([".sigdoc", "config.toml"],
    .file (encode "openai.api_key = 5\nanthropic.api_key = 'd'".toList))], []⟩
  let env : Environment := [("OPENAI_API_KEY", "sk-1,2"), ("claude_api_key", "\x27c\x27")]
  have hload : Settings.load t env none = .ok
      { openAi := { Provider.openAi.defaults with apiKey := "sk-1,2" },
        anthropic := { Provider.anthropic.defaults with apiKey := "c" } } := by decide +kernel
  have hprefixed : ∀ q ∈ env, variablePath? q.1 = none := by decide +kernel
  obtain ⟨hiff, -, hkeys⟩ := @Settings.load_keys t env none hprefixed
  have hopenAi := (hkeys _ hload .openAi "sk-1,2" (by decide +kernel)).2 (trimmed_iff.2 (by decide +kernel))
  have hanthropic := (hkeys _ hload .anthropic "\x27c\x27" (by decide +kernel)).2 (trimmed_iff.2 (by decide +kernel))
  exact ⟨t, env, _, hload, (hiff.1 ⟨_, hload⟩).1, rfl, hopenAi.1 rfl, rfl,
    fun h => absurd (hanthropic.2 h) (by decide +kernel)⟩

/-- A key of digits is refused, and a key in quotes loses them. -/
theorem Settings.load_key_digits : Trimmed "12345".toList ∧
    Settings.load ⟨[], []⟩ [("OPENAI_API_KEY", "12345")] none =
      .error (.misfit ⟨.invalidType "unsigned int `12345`" .text, ["openai", "api_key"], .bareVariable⟩) ∧
    Settings.load ⟨[], []⟩ [("CLAUDE_API_KEY", "\"dq\"")] none =
      .ok { anthropic := { Provider.anthropic.defaults with apiKey := "dq" } } :=
  ⟨trimmed_iff.2 (by decide +kernel), by decide +kernel, by decide +kernel⟩

end SignatureDocs
