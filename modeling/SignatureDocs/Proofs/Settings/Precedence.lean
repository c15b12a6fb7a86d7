import SignatureDocs.Proofs.Settings.Files

/-!
Which layer decides a setting. Of all layers that say something about a field only the highest counts: if its value
fits, it is the value of the field, whatever is below it, and if it does not fit, there are no settings.
-/
namespace SignatureDocs

open SignatureDocs.Text

/-- The fields of the section on documentation. -/
inductive RenderField where
  | model
  | outputDir
  | samplePath
  | maxTokens
  | timeoutSecs
deriving DecidableEq, Repr

namespace RenderField

def key : RenderField → String
  | model => "model"
  | outputDir => "output_dir"
  | samplePath => "example_path"
  | maxTokens => "max_tokens"
  | timeoutSecs => "timeout_secs"

/-- What the value of a field is. -/
abbrev Content : RenderField → Type
  | model => Model
  | outputDir => Path
  | samplePath => Option Path
  | maxTokens => UInt32
  | timeoutSecs => UInt64

def decode : (f : RenderField) → Setting → Except SettingFault f.Content
  | model, s => s.decodeModel
  | outputDir, s => s.decodeText .path
  | samplePath, s => (s.decodeText .path).map some
  | maxTokens, s => (s.decodeNat (Nat.pow 2 32) .word32).map UInt32.ofNat
  | timeoutSecs, s => (s.decodeNat (Nat.pow 2 64) .word64).map UInt64.ofNat

def get : (f : RenderField) → RenderSettings → f.Content
  | model, r => r.model
  | outputDir, r => r.outputDir
  | samplePath, r => r.samplePath
  | maxTokens, r => r.maxTokens
  | timeoutSecs, r => r.timeoutSecs

end RenderField

/-- The fields of the section on a provider. -/
inductive ProviderField where
  | apiKey
  | baseUrl
deriving DecidableEq, Repr

namespace ProviderField

def key : ProviderField → String
  | apiKey => "api_key"
  | baseUrl => "base_url"

def get : ProviderField → ProviderSettings → String
  | apiKey, r => r.apiKey
  | baseUrl, r => r.baseUrl

end ProviderField

/-- The sections of settings. -/
inductive Section where
  | render
  | provider (p : Provider)
deriving DecidableEq, Repr

namespace Section

def key : Section → String
  | render => "render"
  | provider p => p.sectionName

/-- What a section holds. -/
abbrev Content : Section → Type
  | render => RenderSettings
  | provider _ => ProviderSettings

def decode : (c : Section) → Setting → Except SettingFault c.Content
  | render, s => renderForm.decode s
  | provider p, s => (providerForm p).decode s

def get : (c : Section) → Settings → c.Content
  | render, s => s.render
  | provider p, s => s.ofProvider p

def all : List Section := [render, provider .openAi, provider .anthropic]

theorem mem_all (c : Section) : c ∈ all := by
  rcases c with _ | _ | _ <;> decide

end Section

/-- A field of the settings. -/
inductive Field where
  | render (f : RenderField)
  | provider (p : Provider) (f : ProviderField)
deriving DecidableEq, Repr

namespace Field

/-- The section that a field is in. -/
def group : Field → Section
  | render _ => .render
  | provider p _ => .provider p

def key : Field → String
  | render f => f.key
  | provider _ f => f.key

/-- What the value of a field is. -/
abbrev Content : Field → Type
  | render f => f.Content
  | provider _ _ => String

/-- The value that a setting gives to a field, if it fits. -/
def decode : (f : Field) → Setting → Except SettingFault f.Content
  | render f, s => f.decode s
  | provider _ _, s => s.decodeText .text

def get : (f : Field) → Settings → f.Content
  | render f, s => f.get s.render
  | provider p f, s => f.get (s.ofProvider p)

end Field

/-- A form takes in the fields that are numbered by `ι`, each on its own, and nothing else. -/
structure SectionForm.Spec {α ι : Type} (form : SectionForm α) (key : ι → String) {Content : ι → Type}
    (decode : (i : ι) → Setting → Except SettingFault (Content i)) (get : (i : ι) → α → Content i) :
    Prop where
  set_self : ∀ {i a s b}, form.set a (key i) s = .ok b → decode i s = .ok (get i b)
  set_other : ∀ {i a name s b}, name ≠ key i → form.set a name s = .ok b → get i b = get i a
  set_ok : ∀ {a name s}, (∀ i, key i = name → ∃ x, decode i s = .ok x) → ∃ b, form.set a name s = .ok b

/-- A value is the one that a setting gives, or stays as it was if there is no setting. -/
def Settled {β : Type} (decode : Setting → Except SettingFault β) (initial : β) (s : Option Setting) (x : β) :
    Prop :=
  match s with
  | none => x = initial
  | some v => decode v = .ok x

namespace SectionForm.Spec

variable {α ι : Type} {form : SectionForm α} {key : ι → String} {Content : ι → Type}
  {decode : (i : ι) → Setting → Except SettingFault (Content i)} {get : (i : ι) → α → Content i}
  {fields : List (String × Setting)}

theorem collect_settled (h : form.Spec key decode get) (hkeys : KeysOrdered fields) {a b : α}
    (hc : form.collect a (fields.map fun (k, s) => (k, k, s)) = .ok b) (i : ι) :
    Settled (decode i) (get i a) (fields.lookup (key i)) (get i b) := by
  induction fields generalizing a with
  | nil =>
    rw [List.map_nil, SectionForm.collect] at hc
    rw [Except.ok.inj hc]
    rfl
  | cons q rest ih =>
    obtain ⟨k, s⟩ := q
    rw [List.map_cons, SectionForm.collect] at hc
    cases hset : form.set a k s with
    | error e => simp [hset] at hc
    | ok a' =>
      rw [hset] at hc
      have hrest := ih hkeys.tail hc
      by_cases hk : key i = k
      · -- no later field has the key, so what this one gave stays
        subst hk
        rw [hkeys.lookup_tail_eq_none] at hrest
        have hstay : get i b = get i a' := hrest
        rw [List.lookup_cons_self]
        exact hstay ▸ h.set_self hset
      · have hne : (key i == k) = false := by simpa using hk
        rw [List.lookup_cons, hne]
        rwa [h.set_other (Ne.symm hk) hset] at hrest

theorem collect_isOk (h : form.Spec key decode get) (hkeys : KeysOrdered fields)
    (hok : ∀ i s, fields.lookup (key i) = some s → ∃ x, decode i s = .ok x) (a : α) :
    ∃ b, form.collect a (fields.map fun (k, s) => (k, k, s)) = .ok b := by
  have hset : ∀ q ∈ fields, ∀ a, ∃ b, form.set a q.1 q.2 = .ok b := fun q hq a =>
    h.set_ok fun i hi => hok i q.2 (hi ▸ hkeys.lookup_of_mem hq)
  -- the order of the keys was needed only to find each field under its key
  clear hok hkeys
  induction fields generalizing a with
  | nil => exact ⟨a, rfl⟩
  | cons q rest ih =>
    obtain ⟨b, hb⟩ := hset q (by simp) a
    rw [List.map_cons, SectionForm.collect]
    simp only [hb]
    exact ih b fun q hq => hset q (List.mem_cons_of_mem _ hq)

end SectionForm.Spec

theorem renderForm_spec : renderForm.Spec RenderField.key RenderField.decode RenderField.get where
  set_self {i a s b} h := by
    cases i <;> obtain ⟨x, hx, rfl⟩ := exceptMap_ok h <;> simp [RenderField.decode, RenderField.get, hx, Except.map]
  set_other {i a name s b} hne h := by
    unfold renderForm at h
    dsimp only at h
    split at h
    case h_6 => rw [Except.ok.inj h]
    all_goals
      obtain ⟨x, -, rfl⟩ := exceptMap_ok h
      cases i <;> simp_all [RenderField.get, RenderField.key]
  set_ok {a name s} h := by
    unfold renderForm
    dsimp only
    split
    · obtain ⟨x, hx⟩ := h .model rfl
      exact ⟨_, by rw [show s.decodeModel = .ok x from hx]; rfl⟩
    · obtain ⟨x, hx⟩ := h .outputDir rfl
      exact ⟨_, by rw [show s.decodeText .path = .ok x from hx]; rfl⟩
    · obtain ⟨y, hy⟩ := h .samplePath rfl
      obtain ⟨x, hx, -⟩ := exceptMap_ok hy
      exact ⟨_, by rw [hx]; rfl⟩
    · obtain ⟨y, hy⟩ := h .maxTokens rfl
      obtain ⟨x, hx, -⟩ := exceptMap_ok hy
      exact ⟨_, by rw [hx]; rfl⟩
    · obtain ⟨y, hy⟩ := h .timeoutSecs rfl
      obtain ⟨x, hx, -⟩ := exceptMap_ok hy
      exact ⟨_, by rw [hx]; rfl⟩
    · exact ⟨a, rfl⟩

theorem providerForm_spec (p : Provider) : (providerForm p).Spec ProviderField.key
    (fun _ s => s.decodeText .text) ProviderField.get where
  set_self {i a s b} h := by
    cases i <;> obtain ⟨x, hx, rfl⟩ := exceptMap_ok h <;> simp [ProviderField.get, hx]
  set_other {i a name s b} hne h := by
    unfold providerForm at h
    dsimp only at h
    split at h
    case h_3 => rw [Except.ok.inj h]
    all_goals
      obtain ⟨x, -, rfl⟩ := exceptMap_ok h
      cases i <;> simp_all [ProviderField.get, ProviderField.key]
  set_ok {a name s} h := by
    unfold providerForm
    dsimp only
    split
    · obtain ⟨x, hx⟩ := h .apiKey rfl
      exact ⟨_, by rw [hx]; rfl⟩
    · obtain ⟨x, hx⟩ := h .baseUrl rfl
      exact ⟨_, by rw [hx]; rfl⟩
    · exact ⟨a, rfl⟩

theorem settingsForm_spec : settingsForm.Spec Section.key Section.decode Section.get where
  set_self {i a s b} h := by
    rcases i with _ | _ | _ <;> obtain ⟨x, hx, rfl⟩ := exceptMap_ok h <;>
      simp [Section.decode, Section.get, Settings.ofProvider, hx]
  set_other {i a name s b} hne h := by
    unfold settingsForm at h
    dsimp only at h
    split at h
    case h_4 => rw [Except.ok.inj h]
    all_goals
      obtain ⟨x, -, rfl⟩ := exceptMap_ok h
      rcases i with _ | _ | _ <;> simp_all [Section.get, Section.key, Settings.ofProvider, Provider.sectionName]
  set_ok {a name s} h := by
    unfold settingsForm
    dsimp only
    split
    · obtain ⟨x, hx⟩ := h .render rfl
      exact ⟨_, by rw [show renderForm.decode s = .ok x from hx]; rfl⟩
    · obtain ⟨x, hx⟩ := h (.provider .openAi) rfl
      exact ⟨_, by rw [show (providerForm .openAi).decode s = .ok x from hx]; rfl⟩
    · obtain ⟨x, hx⟩ := h (.provider .anthropic) rfl
      exact ⟨_, by rw [show (providerForm .anthropic).decode s = .ok x from hx]; rfl⟩
    · exact ⟨a, rfl⟩

/-- The setting under a key of a table. -/
def Setting.field? (key : String) : Setting → Option Setting
  | .table _ fields => fields.lookup key
  | .given _ _ => none

def Setting.isTable : Setting → Bool
  | .table _ _ => true
  | .given _ _ => false

/-- What a layer says about a field. -/
def Layer.field? (l : Layer) (f : Field) : Option Setting :=
  (l.lookup f.group.key).bind (Setting.field? f.key)

/-- What the highest of some layers, given from below, says about a field of those that say something. -/
def Layer.highest? (layers : List Layer) (f : Field) : Option Setting :=
  layers.reverse.findSome? (·.field? f)

/-- All sections of a layer are tables. -/
def Layer.Sectioned (l : Layer) : Prop :=
  ∀ (c : Section) (s : Setting), l.lookup c.key = some s → ∃ o fields, s = .table o fields

instance (l : Layer) : Decidable l.Sectioned :=
  decidable_of_iff (∀ c ∈ Section.all, (l.lookup c.key).all Setting.isTable = true) <| by
    constructor
    · intro h c s hs
      have htable := h c c.mem_all
      rw [hs, Option.all_some] at htable
      cases s with
      | given o v => cases htable
      | table o fields => exact ⟨o, fields, rfl⟩
    · intro h c _
      cases hs : l.lookup c.key with
      | none => rfl
      | some s =>
        obtain ⟨o, fields, rfl⟩ := h c s hs
        rfl

/-- The value that a layer gives to a field: nothing if it says nothing about the field, and no value if what it
says does not fit. -/
def Layer.reading? (l : Layer) (f : Field) : Option (Option f.Content) :=
  (l.field? f).map fun s => (f.decode s).toOption

theorem Setting.lookup_overlayFields {below above : List (String × Setting)} (h : KeysOrdered above)
    (k : String) : (Setting.overlayFields below above).lookup k =
      match above.lookup k with
      | none => below.lookup k
      | some s => some (((below.lookup k).map fun b => Setting.overlay b s).getD s) := by
  induction above generalizing below with
  | nil => rw [Setting.overlayFields]; rfl
  | cons q rest ih =>
    obtain ⟨k', s⟩ := q
    rw [Setting.overlayFields, ih h.tail, lookup_putKey]
    by_cases hk : k = k'
    · subst hk
      rw [h.lookup_tail_eq_none, List.lookup_cons_self, if_pos rfl]
      cases below.lookup k <;> rfl
    · have hne : (k == k') = false := by simpa using hk
      rw [List.lookup_cons, hne, if_neg hk]

/-- A table fits no field. -/
theorem Field.decode_table (f : Field) (o : Origin) (fields : List (String × Setting)) :
    (f.decode (.table o fields)).toOption = none := by
  rcases f with f | ⟨p, f⟩
  · cases f with
    | model =>
      cases fields with
      | nil => rfl
      | cons q rest =>
        simp only [Field.decode, RenderField.decode, Setting.decodeModel]
        split <;> rfl
    | _ => rfl
  · rfl

theorem Field.decode_overlay (f : Field) (b s : Setting) :
    (f.decode (Setting.overlay b s)).toOption = (f.decode s).toOption := by
  cases s with
  | given o v => rw [Setting.overlay]
  | table o fields =>
    cases b with
    | given o' v => rw [Setting.overlay]
    | table o' fields' => rw [Setting.overlay, f.decode_table, f.decode_table]

namespace Layer

theorem Sectioned.overlay {below above : Layer} (hb : below.Sectioned) (ha : above.Sectioned)
    (hkeys : KeysOrdered above) : (below.overlay above).Sectioned := by
  intro c s hs
  rw [Layer.overlay, Setting.lookup_overlayFields hkeys] at hs
  cases habove : above.lookup c.key with
  | none =>
    rw [habove] at hs
    exact hb c s hs
  | some t =>
    obtain ⟨o, fields, rfl⟩ := ha c t habove
    rw [habove] at hs
    rw [← Option.some.inj hs]
    cases hbelow : below.lookup c.key with
    | none => exact ⟨o, fields, rfl⟩
    | some b =>
      obtain ⟨o', fields', rfl⟩ := hb c b hbelow
      exact ⟨o', _, by rw [Option.map_some, Option.getD_some, Setting.overlay]⟩

/-- What the upper of two layers says counts. -/
theorem reading?_overlay {below above : Layer} (hb : below.Sectioned) (ha : above.Sectioned)
    (hordered : above.Ordered) (f : Field) :
    (below.overlay above).reading? f = (above.reading? f).or (below.reading? f) := by
  simp only [reading?, field?, Layer.overlay, Setting.lookup_overlayFields hordered.1]
  cases habove : above.lookup f.group.key with
  | none => simp
  | some t =>
    obtain ⟨o, fields, rfl⟩ := ha f.group t habove
    cases hbelow : below.lookup f.group.key with
    | none => simp
    | some b =>
      obtain ⟨o', fields', rfl⟩ := hb f.group b hbelow
      have hkeys : KeysOrdered fields := (hordered.of_lookup habove).fields.1
      simp only [Option.map_some, Option.getD_some, Option.bind_some, Setting.overlay, Setting.field?,
        Setting.lookup_overlayFields hkeys]
      cases fields.lookup f.key with
      | none => simp
      | some v =>
        cases fields'.lookup f.key with
        | none => simp
        | some w => simp [f.decode_overlay]

/-- What a list of layers over another layer says about a field is what the highest of them says. -/
theorem foldl_overlay {layers : List Layer} {base : Layer} (hbase : base.Sectioned) (hob : base.Ordered)
    (hsec : ∀ l ∈ layers, l.Sectioned) (hord : ∀ l ∈ layers, l.Ordered) :
    (layers.foldl Layer.overlay base).Sectioned ∧ (layers.foldl Layer.overlay base).Ordered ∧
      ∀ f, (layers.foldl Layer.overlay base).reading? f =
        ((highest? layers f).map fun s => (f.decode s).toOption).or (base.reading? f) := by
  induction layers generalizing base with
  | nil => exact ⟨hbase, hob, fun f => rfl⟩
  | cons l layers ih =>
    have hl := hsec l (by simp)
    have hlo := hord l (by simp)
    obtain ⟨hs, ho, hr⟩ := ih (hbase.overlay hl hlo.1) (hob.overlay hlo)
      (fun l h => hsec l (List.mem_cons_of_mem _ h)) (fun l h => hord l (List.mem_cons_of_mem _ h))
    refine ⟨hs, ho, fun f => ?_⟩
    rw [List.foldl_cons, hr f, reading?_overlay hbase hl hlo, ← Option.or_assoc]
    congr 1
    simp only [highest?, List.reverse_cons, List.findSome?_append, reading?]
    cases layers.reverse.findSome? (·.field? f) <;> cases hf : l.field? f <;> simp [hf]

theorem map_highest?_concat (layers : List Layer) (l : Layer) (f : Field) :
    ((highest? (layers ++ [l]) f).map fun s => (f.decode s).toOption) =
      (l.reading? f).or ((highest? layers f).map fun s => (f.decode s).toOption) := by
  simp only [highest?, List.reverse_append, List.reverse_singleton, List.findSome?_append, reading?]
  cases hf : l.field? f <;> simp [hf]

end Layer

theorem settled_iff {β : Type} {decode : Setting → Except SettingFault β} {initial x : β} {s : Option Setting} :
    Settled decode initial s x ↔
      ((s.map fun v => (decode v).toOption).getD (some initial)) = some x := by
  cases s with
  | none => simp [Settled, eq_comm]
  | some v =>
    cases hv : decode v with
    | error e => simp [Settled, hv, Except.toOption]
    | ok y => simp [Settled, hv, Except.toOption]

namespace Settings

variable {l : Layer} {s : Settings}

theorem ofLayer_section (hord : l.Ordered) (h : Settings.ofLayer l = .ok s) (c : Section) :
    Settled c.decode (c.get {}) (l.lookup c.key) (c.get s) :=
  settingsForm_spec.collect_settled hord.1 h c

/-- The fields of settings are what the layer says about them. -/
theorem ofLayer_settled (hord : l.Ordered) (hsec : l.Sectioned) (h : Settings.ofLayer l = .ok s) (f : Field) :
    Settled f.decode (f.get {}) (l.field? f) (f.get s) := by
  have hgroup := ofLayer_section hord h f.group
  cases hlook : l.lookup f.group.key with
  | none =>
    rw [Layer.field?, hlook]
    rw [hlook] at hgroup
    rcases f with f | ⟨p, f⟩ <;> exact congrArg f.get hgroup
  | some t =>
    obtain ⟨o, fields, rfl⟩ := hsec f.group t hlook
    have hkeys : KeysOrdered fields := (hord.of_lookup hlook).fields.1
    rw [Layer.field?, hlook]
    rw [hlook] at hgroup
    rcases f with f | ⟨p, f⟩
    · exact renderForm_spec.collect_settled hkeys hgroup f
    · have hfield := (providerForm_spec p).collect_settled hkeys hgroup f
      cases p <;> exact hfield

theorem ofLayer_isOk (hord : l.Ordered) (hsec : l.Sectioned)
    (hok : ∀ f v, l.field? f = some v → ∃ x, f.decode v = .ok x) : ∃ s, Settings.ofLayer l = .ok s := by
  refine settingsForm_spec.collect_isOk hord.1 (fun c t ht => ?_) {}
  obtain ⟨o, fields, rfl⟩ := hsec c t ht
  have hkeys : KeysOrdered fields := (hord.of_lookup ht).fields.1
  cases c with
  | render =>
    refine renderForm_spec.collect_isOk hkeys (fun f v hv => hok (.render f) v ?_) _
    rw [Layer.field?, show l.lookup (Field.render f).group.key = _ from ht]
    exact hv
  | provider p =>
    refine (providerForm_spec p).collect_isOk hkeys (fun f v hv => hok (.provider p f) v ?_) _
    rw [Layer.field?, show l.lookup (Field.provider p f).group.key = _ from ht]
    exact hv

end Settings

theorem keysLayer_ordered (env : Environment) : (keysLayer env).Ordered :=
  (Layer.ordered_ofVariables _ _).overlay (Layer.ordered_ofVariables _ _)

theorem prefixedLayer_ordered (env : Environment) : (prefixedLayer env).Ordered :=
  Layer.ordered_ofVariables _ _

theorem builtInLayer_ordered : builtInLayer.Ordered := by
  refine ⟨by unfold KeysOrdered; decide, fun q hq => ?_⟩
  simp only [builtInLayer, List.mem_cons, List.not_mem_nil, or_false] at hq
  rcases hq with rfl | rfl | rfl <;> exact .table _ List.Pairwise.nil (by simp)

theorem builtInLayer_sectioned : builtInLayer.Sectioned := by
  intro c s hs
  rcases c with _ | _ | _ <;> exact ⟨.builtIn, [], (Option.some.inj hs).symm⟩

theorem builtInLayer_reading? (f : Field) : builtInLayer.reading? f = none := by
  rcases f with f | ⟨_ | _, f⟩ <;> rfl

namespace Layer

theorem sectioned_nil : Layer.Sectioned [] := by
  intro c s hs
  cases hs

theorem sectioned_singleton (group : String) (o : Origin) (fields : List (String × Setting)) :
    Layer.Sectioned [(group, .table o fields)] := by
  intro c s hs
  obtain ⟨-, rfl⟩ := Prod.mk.inj (List.mem_singleton.1 (mem_of_lookup_eq_some hs))
  exact ⟨o, fields, rfl⟩

/-- A variable with a name of its own sets a field of a section, and no section itself. -/
theorem bareLayer_sectioned (name group key : String) (env : Environment) :
    (bareLayer name [group, key] env).Sectioned := by
  refine List.foldlRecOn _ _ sectioned_nil fun below hbelow q hq => ?_
  obtain ⟨setting, -, rfl⟩ := List.mem_map.1 hq
  exact hbelow.overlay (sectioned_singleton _ _ _) (List.pairwise_singleton _ _)

end Layer

/-- The layers over what is built in, from below: those of the three files, those of the two variables with names of
their own, and that of the variables with the common start. -/
def layersOver (user project extra : Layer) (env : Environment) : List Layer :=
  [user, project, extra, bareLayer "OPENAI_API_KEY" ["openai", "api_key"] env,
    bareLayer "CLAUDE_API_KEY" ["anthropic", "api_key"] env, prefixedLayer env]

/-- All layers laid over one another say about a field what the highest of them says. -/
theorem reading?_merged {user project extra : Layer} {env : Environment}
    (hord : ∀ l ∈ [user, project, extra], l.Ordered)
    (hsec : ∀ l ∈ [user, project, extra, prefixedLayer env], l.Sectioned) :
    let merged := ([user, project, extra] ++ [environmentLayer env]).foldl Layer.overlay builtInLayer
    merged.Sectioned ∧ merged.Ordered ∧ ∀ f, merged.reading? f =
      (Layer.highest? (layersOver user project extra env) f).map fun s => (f.decode s).toOption := by
  have hopenAi := Layer.bareLayer_sectioned "OPENAI_API_KEY" "openai" "api_key" env
  have hanthropic := Layer.bareLayer_sectioned "CLAUDE_API_KEY" "anthropic" "api_key" env
  have hordered (name : String) (path : List String) : (bareLayer name path env).Ordered :=
    Layer.ordered_ofVariables _ _
  have hkeys : (keysLayer env).Sectioned := hopenAi.overlay hanthropic (hordered _ _).1
  have hpre : (prefixedLayer env).Sectioned := hsec _ (by simp)
  have henv : (environmentLayer env).Sectioned := hkeys.overlay hpre (prefixedLayer_ordered env).1
  have henvo : (environmentLayer env).Ordered := (keysLayer_ordered env).overlay (prefixedLayer_ordered env)
  have hall {p : Layer → Prop} (hp : ∀ l ∈ [user, project, extra], p l) (henv : p (environmentLayer env)) :
      ∀ l ∈ [user, project, extra] ++ [environmentLayer env], p l := by
    intro l hl
    rcases List.mem_append.mp hl with hl | hl
    · exact hp l hl
    · exact List.mem_singleton.mp hl ▸ henv
  obtain ⟨hs, ho, hr⟩ := Layer.foldl_overlay builtInLayer_sectioned builtInLayer_ordered
    (hall (fun l hl => hsec l (List.mem_append_left [prefixedLayer env] hl)) henv) (hall hord henvo)
  refine ⟨hs, ho, fun f => ?_⟩
  -- the environment is one layer over the files, and its three parts lie over each other in the same order
  have hsplit : layersOver user project extra env = [user, project, extra] ++
      [bareLayer "OPENAI_API_KEY" ["openai", "api_key"] env] ++
      [bareLayer "CLAUDE_API_KEY" ["anthropic", "api_key"] env] ++ [prefixedLayer env] := rfl
  have hover : (environmentLayer env).reading? f = ((prefixedLayer env).reading? f).or
      (((bareLayer "CLAUDE_API_KEY" ["anthropic", "api_key"] env).reading? f).or
        ((bareLayer "OPENAI_API_KEY" ["openai", "api_key"] env).reading? f)) := by
    rw [environmentLayer, Layer.reading?_overlay hkeys hpre (prefixedLayer_ordered env), keysLayer,
      Layer.reading?_overlay hopenAi hanthropic (hordered _ _)]
  rw [hr f, builtInLayer_reading?, Option.or_none, hsplit, Layer.map_highest?_concat, hover,
    Layer.map_highest?_concat, Layer.map_highest?_concat, Layer.map_highest?_concat, Option.or_assoc, Option.or_assoc]

/-- The layers from below are what is built in, what the user's file, the project's file and the file that is named say,
the two variables with names of their own and those with the common start. If all sections are tables in them, settings
are loaded if and only if, for every field, the value in the highest layer that says something about it fits; and each
field then has this value, or the one that is built in if no layer says anything about it. -/
theorem Settings.load_highest {t : FileTree} {env : Environment} {named : Option Path}
    {user project extra : Layer} (huser : FileSays t (userFile? env) user)
    (hproject : FileSays t (some projectFile) project) (hextra : FileSays t named extra)
    (hnamed : ∀ p, named = some p → t.isPresent p = true)
    (hsec : ∀ l ∈ [user, project, extra, prefixedLayer env], l.Sectioned) :
    ((∃ s, Settings.load t env named = .ok s) ↔ ∀ (f : Field) (v : Setting),
      Layer.highest? (layersOver user project extra env) f = some v → ∃ x, f.decode v = .ok x) ∧
    ∀ s, Settings.load t env named = .ok s → ∀ f : Field, Settled f.decode (f.get {})
      (Layer.highest? (layersOver user project extra env) f) (f.get s) := by
  have hload : Settings.load t env named = (Settings.ofLayer
      (([user, project, extra] ++ [environmentLayer env]).foldl Layer.overlay builtInLayer)).mapError .misfit := by
    have hnone : named.filter (!t.isPresent ·) = none := by
      rw [Option.filter_eq_none_iff]
      intro p hp
      simp [hnamed p hp]
    have hfiles := (fileLayers_eq_ok hnamed).2 ⟨user, project, extra, huser, hproject, hextra, rfl⟩
    rw [Settings.load, hnone, hfiles]
  have hord : ∀ l ∈ [user, project, extra], l.Ordered := by
    simp [huser.ordered, hproject.ordered, hextra.ordered]
  obtain ⟨hs, ho, hr⟩ := reading?_merged hord hsec
  -- from here on only what the merged layer says about each field counts
  generalize ([user, project, extra] ++ [environmentLayer env]).foldl Layer.overlay builtInLayer = merged
    at hload hs ho hr
  have hsettled (s : Settings) (h : Settings.load t env named = .ok s) (f : Field) : Settled f.decode (f.get {})
      (Layer.highest? (layersOver user project extra env) f) (f.get s) := by
    rw [hload] at h
    have hfield := Settings.ofLayer_settled ho hs (exceptMapError_ok h) f
    rw [settled_iff] at hfield ⊢
    rwa [← hr f]
  refine ⟨⟨fun ⟨s, h⟩ f v hv => ?_, fun hok => ?_⟩, hsettled⟩
  · have hf := hsettled s h f
    rw [hv] at hf
    exact ⟨f.get s, hf⟩
  · obtain ⟨s, h⟩ := Settings.ofLayer_isOk ho hs fun f v hv => by
      have hread := hr f
      rw [Layer.reading?, hv, Option.map_some] at hread
      obtain ⟨w, hw, hdecode⟩ := Option.map_eq_some_iff.mp hread.symm
      obtain ⟨x, hx⟩ := hok f w hw
      refine ⟨x, ?_⟩
      rw [hx] at hdecode
      exact exceptToOption_some hdecode.symm
    exact ⟨s, by rw [hload, h]; rfl⟩

/-- All six layers at once. The project's file counts over the user's, the variables count over the files, and those
with the common start over the others. A number of tokens that does not fit does no harm below one that does. -/
theorem Settings.load_highest_layered : ∃ (t : FileTree) (env : Environment) (user project extra : Layer),
    userFile? env = some "/h/.config/sigdoc/config.toml" ∧
      t.readText "/h/.config/sigdoc/config.toml" = .ok
        "[render]\nmodel='gpt4'\nmax_tokens='x'\ntimeout_secs=5\n[openai]\nbase_url='u'".toList ∧
      t.readText ".sigdoc/config.toml" = .ok "[render]\nmodel='claude'\noutput_dir='p'\n[openai]\napi_key='p'".toList ∧
      t.readText "x" = .ok "render.output_dir='n'".toList ∧
      env = [("HOME", "/h"), ("OPENAI_API_KEY", "raw"), ("CLAUDE_API_KEY", "raw"),
        ("SIGDOC_ANTHROPIC__API_KEY", "set"), ("SIGDOC_RENDER__MAX_TOKENS", "7")] ∧
      FileSays t (userFile? env) user ∧ FileSays t (some projectFile) project ∧ FileSays t (some "x") extra ∧
      ∃ s, Settings.load t env (some "x") = .ok s ∧ s.render.model = .claude ∧ s.render.outputDir = "n" ∧
        s.render.maxTokens = 7 ∧ s.render.timeoutSecs = 5 ∧ s.openAi = ⟨"raw", "u"⟩ ∧ s.anthropic.apiKey = "set" ∧
        ∀ f : Field, Settled f.decode (f.get {}) (Layer.highest? (layersOver user project extra env) f) (f.get s) := by
  let t : FileTree := ⟨[([".sigdoc"], .directory), ([".sigdoc", "config.toml"],
    .file (encode "[render]\nmodel='claude'\noutput_dir='p'\n[openai]\napi_key='p'".toList)),
    (["h"], .directory), (["h", ".config"], .directory), (["h", ".config", "sigdoc"], .directory),
    (["h", ".config", "sigdoc", "config.toml"], .file (encode
      "[render]\nmodel='gpt4'\nmax_tokens='x'\ntimeout_secs=5\n[openai]\nbase_url='u'".toList)),
    (["x"], .file (encode "render.output_dir='n'".toList))], []⟩
  let env : Environment := [("HOME", "/h"), ("OPENAI_API_KEY", "raw"), ("CLAUDE_API_KEY", "raw"),
    ("SIGDOC_ANTHROPIC__API_KEY", "set"), ("SIGDOC_RENDER__MAX_TOKENS", "7")]
  let s : Settings :=
    { render := { model := .claude, outputDir := "n", maxTokens := 7, timeoutSecs := 5 }
      openAi := ⟨"raw", "u"⟩
      anthropic := ⟨"set", "https://api.anthropic.com/v1"⟩ }
  have hsec : ((fileLayers t env (some "x")).toOption.any fun files =>
      (files ++ [prefixedLayer env]).all fun l => l.Sectioned) = true := by decide +kernel
  have hload : Settings.load t env (some "x") = .ok s := by decide +kernel
  have hpresent : ∀ p, some "x" = some p → t.isPresent p = true := by
    rintro p ⟨⟩
    decide +kernel
  obtain ⟨files, hfiles, hall⟩ := (Option.any_eq_true _ _).mp hsec
  obtain ⟨user, project, extra, huser, hproject, hextra, rfl⟩ :=
    (fileLayers_eq_ok hpresent).1 (exceptToOption_some hfiles)
  have hread := (Settings.load_highest huser hproject hextra hpresent (by simpa using hall)).2 _ hload
  exact ⟨t, env, user, project, extra, by decide +kernel, by decide +kernel, by decide +kernel, by decide +kernel, rfl,
    huser, hproject, hextra, s, hload, rfl, rfl, rfl, rfl, rfl, rfl, hread⟩

end SignatureDocs
