import SignatureDocs.Proofs.Settings.Keys

/-!
Variables with the common start. Each of them lays its value over what stands at its path. Where no path leads on from
another, every variable has its own place: its value is found there, and the order of the variables does not count.
-/
namespace SignatureDocs

open SignatureDocs.Text

section Keys

variable {α : Type}

theorem putKey_putKey (k : String) (a b : α) (fields : List (String × α)) :
    putKey k a (putKey k b fields) = putKey k a fields := by
  induction fields with
  | nil => exact putKey_singleton k a b
  | cons q rest ih =>
    obtain ⟨k', c⟩ := q
    by_cases hlt : k < k'
    · simp [putKey, hlt]
    · by_cases heq : k = k'
      · simp [putKey, heq]
      · simp [putKey, hlt, heq, ih]

theorem putKey_comm {k k' : String} (h : k ≠ k') (a b : α) (fields : List (String × α)) :
    putKey k a (putKey k' b fields) = putKey k' b (putKey k a fields) := by
  -- both sides change places if the keys do, so one order of the keys is enough
  wlog hlt : k < k' generalizing k k' a b
  · exact (this h.symm b a (lt_of_le_of_ne (not_lt.mp hlt) h.symm)).symm
  induction fields with
  | nil => simp [putKey, hlt, hlt.not_gt, h.symm]
  | cons q rest ih =>
    obtain ⟨m, c⟩ := q
    rcases lt_trichotomy k m with hm | rfl | hm
    · rcases lt_trichotomy k' m with hm' | rfl | hm'
      · simp [putKey, hm, hm', hlt, hlt.not_gt, h.symm]
      · simp [putKey, hlt, hlt.not_gt, h.symm]
      · simp [putKey, hm, hm'.not_gt, hm'.ne', hlt.not_gt, h.symm]
    · simp [putKey, hlt.not_gt, h.symm]
    · have hm' := hm.trans hlt
      simp [putKey, hm.not_gt, hm.ne', hm'.not_gt, hm'.ne', ih]

end Keys

namespace Setting

/-- A setting over what is below it, if anything is. -/
def laidOver (below : Option Setting) (s : Setting) : Setting := (below.map fun b => overlay b s).getD s

/-- The fields of a table. Nothing else has any. -/
def fieldsOf : Option Setting → List (String × Setting)
  | some (.table _ fields) => fields
  | _ => []

/-- Where a table was given that others are laid over: what is no table gives way to the first of them. -/
def tableOrigin (o : Origin) : Option Setting → Origin
  | some (.table o' _) => o'
  | _ => o

/-- What stands at a path. -/
def at? : List String → Option Setting → Option Setting
  | [], s => s
  | k :: path, s => at? path ((fieldsOf s).lookup k)

theorem laidOver_singleton (o : Origin) (k : String) (s : Setting) (below : Option Setting) :
    laidOver below (.table o [(k, s)]) =
      .table (tableOrigin o below) (putKey k (laidOver ((fieldsOf below).lookup k) s) (fieldsOf below)) := by
  cases below with
  | none => rfl
  | some b =>
    cases b with
    | given o' v =>
      rw [laidOver, Option.map_some, Option.getD_some, overlay]
      rfl
    | table o' fields =>
      rw [laidOver, Option.map_some, Option.getD_some, overlay, overlayFields, overlayFields]
      cases hlook : fields.lookup k with
      | none => simp [fieldsOf, tableOrigin, laidOver, hlook]
      | some b => simp [fieldsOf, tableOrigin, laidOver, hlook]

/-- Two paths of which neither leads on from the other. -/
def Apart (p q : List String) : Prop := ¬ p <+: q ∧ ¬ q <+: p

instance (p q : List String) : Decidable (Apart p q) := inferInstanceAs (Decidable (_ ∧ _))

theorem Apart.symm {p q : List String} (h : Apart p q) : Apart q p := ⟨h.2, h.1⟩

instance : Std.Symm fun q r : List String × String => Apart q.1 r.1 := ⟨fun _ _ h => h.symm⟩

theorem Apart.tail {k : String} {p q : List String} (h : Apart (k :: p) (k :: q)) : Apart p q := by
  simpa [Apart, List.cons_prefix_cons] using h

theorem not_apart_nil_left (q : List String) : ¬ Apart [] q := fun h => h.1 List.nil_prefix

theorem not_apart_nil_right (p : List String) : ¬ Apart p [] := fun h => h.2 List.nil_prefix

section Paths

variable {o : Origin} {v w : Value}

/-- Values at paths that are apart can be laid over a setting in either order. -/
theorem laidOver_nest_comm {p q : List String} (h : Apart p q) (below : Option Setting) :
    laidOver (some (laidOver below (nest o p v))) (nest o q w) =
      laidOver (some (laidOver below (nest o q w))) (nest o p v) := by
  induction p generalizing q below with
  | nil => exact absurd h (not_apart_nil_left q)
  | cons k p ih =>
    cases q with
    | nil => exact absurd h (not_apart_nil_right _)
    | cons k' q =>
      simp only [nest, laidOver_singleton, fieldsOf, tableOrigin]
      by_cases hk : k' = k
      · -- the paths part further down, below the same key
        subst hk
        simp only [lookup_putKey, if_pos, putKey_putKey]
        rw [ih h.tail]
      · -- they part here, so each value goes under a key of its own
        rw [lookup_putKey, if_neg hk, lookup_putKey, if_neg (Ne.symm hk), putKey_comm hk]

/-- At its own path a value lies over what was there. -/
theorem at?_laidOver_nest (path : List String) (below : Option Setting) :
    at? path (some (laidOver below (nest o path v))) = some (laidOver (at? path below) (ofValue o v)) := by
  induction path generalizing below with
  | nil => rfl
  | cons k path ih =>
    rw [nest, laidOver_singleton, at?, fieldsOf, lookup_putKey, if_pos rfl]
    exact ih _

/-- A value leaves what stands at a path apart from its own. -/
theorem at?_laidOver_nest_of_apart {p q : List String} (h : Apart p q) (below : Option Setting) :
    at? p (some (laidOver below (nest o q w))) = at? p below := by
  induction p generalizing q below with
  | nil => exact absurd h (not_apart_nil_left q)
  | cons k p ih =>
    cases q with
    | nil => exact absurd h (not_apart_nil_right _)
    | cons k' q =>
      rw [nest, laidOver_singleton, at?, fieldsOf, lookup_putKey, at?]
      by_cases hk : k = k'
      · subst hk
        rw [if_pos rfl]
        exact ih h.tail _
      · rw [if_neg hk]

end Paths

end Setting

namespace Layer

/-- As long as a variable has a path, it is laid over a layer as over any table. -/
theorem table_withVariable (o o' : Origin) (layer : Layer) {q : List String × String} (h : q.1 ≠ []) :
    Setting.table o' (withVariable o layer q) =
      Setting.laidOver (some (.table o' layer)) (Setting.nest o q.1 (EnvValue.parse (trim q.2.toList))) := by
  obtain ⟨k, path, hpath⟩ := List.exists_cons_of_ne_nil h
  rw [withVariable, hpath, Setting.nest, Setting.laidOver, Option.map_some, Option.getD_some, Setting.overlay]
  rfl

/-- What a variable puts into a layer stands under the first segment of its path. -/
theorem withVariable_cons (o : Origin) (layer : Layer) (k : String) (path : List String) (raw : String) :
    withVariable o layer (k :: path, raw) =
      putKey k (Setting.laidOver (layer.lookup k) (Setting.nest o path (EnvValue.parse (trim raw.toList)))) layer := by
  have htable := table_withVariable o .builtIn layer (q := (k :: path, raw)) (by simp)
  rw [Setting.nest, Setting.laidOver_singleton] at htable
  exact (Setting.table.inj htable).2

/-- What stands at a path of a layer. -/
def at? (l : Layer) (path : List String) : Option Setting := Setting.at? path (some (.table .builtIn l))

variable {o : Origin} {vars : List (List String × String)}

theorem withVariable_comm {q r : List String × String} (h : Setting.Apart q.1 r.1) (layer : Layer) :
    withVariable o (withVariable o layer q) r = withVariable o (withVariable o layer r) q := by
  have hq : q.1 ≠ [] := fun hnil => Setting.not_apart_nil_left r.1 (hnil ▸ h)
  have hr : r.1 ≠ [] := fun hnil => Setting.not_apart_nil_right q.1 (hnil ▸ h)
  have hcomm : Setting.table .builtIn (withVariable o (withVariable o layer q) r) =
      .table .builtIn (withVariable o (withVariable o layer r) q) := by
    rw [table_withVariable _ _ _ hr, table_withVariable _ _ _ hq, table_withVariable _ _ _ hq,
      table_withVariable _ _ _ hr]
    exact Setting.laidOver_nest_comm h _
  exact (Setting.table.inj hcomm).2

/-- The order of variables whose paths are apart does not count. -/
theorem ofVariables_perm {vars' : List (List String × String)}
    (h : vars.Pairwise fun q r => Setting.Apart q.1 r.1) (hperm : vars.Perm vars') :
    ofVariables o vars' = ofVariables o vars := by
  rw [ofVariables, ofVariables]
  symm
  apply hperm.foldl_eq'
  intro q hq r hr layer
  by_cases heq : q = r
  · rw [heq]
  · exact withVariable_comm (h.forall hq hr heq) layer

/-- Variables at paths that are apart from one leave it alone. -/
theorem at?_foldl_withVariable {path : List String} (layer : Layer) (h : ∀ q ∈ vars, Setting.Apart path q.1) :
    (vars.foldl (withVariable o) layer).at? path = layer.at? path := by
  induction vars generalizing layer with
  | nil => rfl
  | cons q vars ih =>
    have hq := h q List.mem_cons_self
    have hne : q.1 ≠ [] := fun hnil => Setting.not_apart_nil_right path (hnil ▸ hq)
    calc (vars.foldl (withVariable o) (withVariable o layer q)).at? path
        = (withVariable o layer q).at? path := ih _ fun r hr => h r (List.mem_cons_of_mem q hr)
      _ = layer.at? path := by
        rw [at?, table_withVariable _ _ _ hne]
        exact Setting.at?_laidOver_nest_of_apart hq _

/-- Of variables whose paths are apart each gives its value to its path. -/
theorem at?_ofVariables (h : vars.Pairwise fun q r => Setting.Apart q.1 r.1) {q : List String × String}
    (hq : q ∈ vars) (hne : q.1 ≠ []) :
    (ofVariables o vars).at? q.1 = some (Setting.ofValue o (EnvValue.parse (trim q.2.toList))) := by
  obtain ⟨before, after, rfl⟩ := List.append_of_mem hq
  obtain ⟨hbefore, hcons, hacross⟩ := List.pairwise_append.mp h
  have hempty : Layer.at? [] q.1 = none := by
    obtain ⟨k, path, hpath⟩ := List.exists_cons_of_ne_nil hne
    rw [hpath]
    -- below a missing key everything is missing
    have hnone (path : List String) : Setting.at? path none = none := by
      induction path with
      | nil => rfl
      | cons k path ih => exact ih
    exact hnone path
  rw [ofVariables, List.foldl_append, List.foldl_cons,
    at?_foldl_withVariable _ (List.pairwise_cons.mp hcons).1, at?, table_withVariable _ _ _ hne,
    Setting.at?_laidOver_nest, ← at?, at?_foldl_withVariable [] fun r hr => (hacross r hr q List.mem_cons_self).symm,
    hempty]
  rfl

end Layer

/-- The paths of variables with the common start, with their values. -/
def Environment.assignments (env : Environment) : List (List String × String) :=
  env.filterMap fun q => (variablePath? q.1).map fun path => (path, q.2)

theorem prefixedLayer_eq (env : Environment) :
    prefixedLayer env = Layer.ofVariables .prefixedVariable env.assignments := rfl

theorem variablePath?_ne_nil {name : String} {path : List String} (h : variablePath? name = some path) :
    path ≠ [] := by
  have hsegments := (Option.filter_eq_some_iff.mp h).1
  unfold variableSegments? at hsegments
  dsimp only at hsegments
  split_ifs at hsegments
  rw [← Option.some.inj hsegments]
  simp [List.splitOn_ne_nil]

/-- An environment whose variables have nothing to do with one another: no two have the same name, each provider has
at most one key, and the paths of those with the common start are apart. -/
structure Environment.Independent (env : Environment) : Prop where
  names : (env.map Prod.fst).Nodup
  keys : ∀ p, (env.rawKeys p).length ≤ 1
  paths : env.assignments.Pairwise fun q r => Setting.Apart q.1 r.1

namespace Environment.Independent

variable {env env' : Environment}

theorem mem_lookup_iff (h : (env.map Prod.fst).Nodup) {name value : String} :
    env.lookup name = some value ↔ (name, value) ∈ env := by
  induction env with
  | nil => simp
  | cons q env ih =>
    obtain ⟨k, v⟩ := q
    obtain ⟨hk, hnodup⟩ := List.nodup_cons.mp h
    by_cases heq : name = k
    · subst heq
      have hnot : (name, value) ∉ env := fun hmem => hk (List.mem_map.mpr ⟨_, hmem, rfl⟩)
      simp [hnot, eq_comm]
    · have hne : (name == k) = false := by simpa using heq
      rw [List.lookup_cons, hne, List.mem_cons]
      simp [ih hnodup, heq]

theorem lookup_perm (h : env.Independent) (hperm : env.Perm env') (name : String) :
    env'.lookup name = env.lookup name := by
  have hnames : (env'.map Prod.fst).Nodup := (hperm.map Prod.fst).nodup_iff.mp h.names
  apply Option.ext
  intro value
  rw [mem_lookup_iff hnames, mem_lookup_iff h.names]
  exact hperm.mem_iff.symm

theorem rawKeys_perm (h : env.Independent) (hperm : env.Perm env') (p : Provider) :
    env'.rawKeys p = env.rawKeys p := by
  have hkeys : (env.rawKeys p).Perm (env'.rawKeys p) := (hperm.filter _).map Prod.snd
  cases hraw : env.rawKeys p with
  | nil => exact (hraw ▸ hkeys).nil_eq.symm
  | cons raw raws =>
    -- there is no second key, so there is nothing to change places with
    have hlength : raws.length + 1 ≤ 1 := by simpa [hraw] using h.keys p
    obtain rfl : raws = [] := List.eq_nil_of_length_eq_zero (by omega)
    exact (hraw ▸ hkeys).singleton_eq.symm

theorem prefixedLayer_perm (h : env.Independent) (hperm : env.Perm env') :
    prefixedLayer env' = prefixedLayer env := by
  rw [prefixedLayer_eq, prefixedLayer_eq]
  exact Layer.ofVariables_perm h.paths (hperm.filterMap _)

theorem environmentLayer_perm (h : env.Independent) (hperm : env.Perm env') :
    environmentLayer env' = environmentLayer env := by
  have hkeysLayer : keysLayer env' = keysLayer env := by
    rw [keysLayer_eq, keysLayer_eq, h.rawKeys_perm hperm, h.rawKeys_perm hperm]
  calc environmentLayer env' = (keysLayer env').overlay (prefixedLayer env') := by rw [environmentLayer]
    _ = (keysLayer env).overlay (prefixedLayer env) := by rw [hkeysLayer, h.prefixedLayer_perm hperm]

/-- A variable with the common start is found at its path. -/
theorem at?_prefixedLayer (h : env.Independent) {name value : String} {path : List String}
    (hmem : (name, value) ∈ env) (hpath : variablePath? name = some path) :
    (prefixedLayer env).at? path =
      some (Setting.ofValue .prefixedVariable (EnvValue.parse (trim value.toList))) := by
  have hassigned : (path, value) ∈ env.assignments :=
    List.mem_filterMap.mpr ⟨(name, value), hmem, by rw [hpath]; rfl⟩
  exact Layer.at?_ofVariables h.paths hassigned (variablePath?_ne_nil hpath)

end Environment.Independent

/-- Where variables have nothing to do with one another, their order does not count for what is loaded, be it settings
or the first fault, and each variable with the common start has its value at its own path. -/
theorem Settings.load_perm {env env' : Environment} (h : env.Independent) (hperm : env.Perm env') (t : FileTree)
    (named : Option Path) :
    Settings.load t env' named = Settings.load t env named ∧
      ∀ name value path, (name, value) ∈ env → variablePath? name = some path →
        (prefixedLayer env').at? path =
          some (Setting.ofValue .prefixedVariable (EnvValue.parse (trim value.toList))) := by
  have henv := h.environmentLayer_perm hperm
  have hfiles : fileLayers t env' named = fileLayers t env named :=
    fileLayers_congr fun _ => h.lookup_perm hperm _
  constructor
  · rw [Settings.load, Settings.load, hfiles, henv]
  · intro name value path hmem hpath
    rw [h.prefixedLayer_perm hperm]
    exact h.at?_prefixedLayer hmem hpath

/-- A table and a field beside it, a value that does not fit and a key, in two orders. -/
theorem Settings.load_perm_reverse : ∃ env : Environment, env.Independent ∧
    Settings.load ⟨[], []⟩ env.reverse none = Settings.load ⟨[], []⟩ env none ∧
    Settings.load ⟨[], []⟩ env none =
      .error (.misfit ⟨.invalidType "unsigned int `5`" .model, ["render", "model"], .prefixedVariable⟩) := by
  let env : Environment := [("SIGDOC_OPENAI", "\x7bbase_url=\"u\"\x7d"), ("OPENAI_API_KEY", "k"),
    ("SIGDOC_RENDER__MODEL", "5"), ("sigdoc_render.max_tokens", "3")]
  have hindependent : env.Independent :=
    ⟨by decide, by rintro (_ | _) <;> decide +kernel, by decide +kernel⟩
  exact ⟨env, hindependent, (Settings.load_perm hindependent (List.reverse_perm env).symm _ _).1, by decide +kernel⟩

-- a path that leads on from another one: the later of the two variables decides
example : Settings.load ⟨[], []⟩ [("SIGDOC_RENDER", "\x7bmodel=gpt4\x7d"), ("SIGDOC_RENDER__MODEL", "claude")] none ≠
    Settings.load ⟨[], []⟩ [("SIGDOC_RENDER__MODEL", "claude"), ("SIGDOC_RENDER", "\x7bmodel=gpt4\x7d")] none := by
  decide +kernel

end SignatureDocs
