import SignatureDocs.Proofs.Program.Frame

/-!
A model is served by one provider, and the settings of the other one are of no account. Two runs whose settings agree
on the documentation and on the serving provider cannot be told apart, and every request is made of the section of the
serving provider.
-/
namespace SignatureDocs

open SignatureDocs.Text

/-- Two settings agree on the documentation and on the section of a provider. -/
structure Settings.AgreeFor (p : Provider) (s s' : Settings) : Prop where
  render : s.render = s'.render
  served : s.ofProvider p = s'.ofProvider p

/-- The client that the section of a provider makes. -/
def ProviderSettings.client (p : ProviderSettings) (m : Model) (maxTokens : UInt32) : Client :=
  ⟨m.provider, p.apiKey, trimSlashes p.baseUrl, maxTokens⟩

theorem Client.ofSettings_congr {s s' : Settings} {m : Model} (h : s.AgreeFor m.provider s') :
    Client.ofSettings s m = Client.ofSettings s' m := by
  simp only [Client.ofSettings, Settings.providerFor, h.render, h.served]

theorem Client.ofSettings_eq_ok {s : Settings} {m : Model} {c : Client} (h : Client.ofSettings s m = .ok c) :
    (s.ofProvider m.provider).client m s.render.maxTokens = c := by
  unfold Client.ofSettings Settings.providerFor at h
  dsimp only at h
  split at h
  · exact Except.ok.inj h
  · cases h

section Command

variable (machine : Machine) (w : World) (o : GlobalOptions) (t : Target) (g : GenerateOptions)

theorem runGenerateOn_eq {s : Settings} (h : loadSettings w o = .ok s) :
    runGenerateOn machine w o t g = generateOn machine w o t g s := by
  unfold runGenerateOn
  rw [h]

/-- With settings that agree for the provider of the model, everything that is done is the same. -/
theorem generateOn_congr {s s' : Settings} (h : s.AgreeFor (g.model.getD s.render.model).provider s') :
    generateOn machine w o t g s = generateOn machine w o t g s' := by
  have hclient : Client.ofSettings s (g.model.getD s.render.model) =
      Client.ofSettings s' (g.model.getD s'.render.model) := by
    rw [Client.ofSettings_congr h, h.render]
  unfold generateOn
  simp only [hclient]
  rw [h.render]

/-- Of the world the files and the answers are looked at, and of the options the layout. -/
theorem generateOn_seen {w w' : World} {o o' : GlobalOptions} (hfiles : w.files = w'.files)
    (hexchange : w.exchange = w'.exchange) (hformat : o.format = o'.format) (s : Settings) :
    generateOn machine w o t g s = generateOn machine w' o' t g s := by
  obtain ⟨files, environment, exchange⟩ := w
  obtain ⟨files', environment', exchange'⟩ := w'
  obtain ⟨format, quiet, verbose, config⟩ := o
  obtain ⟨format', quiet', verbose', config'⟩ := o'
  subst hfiles hexchange hformat
  rfl

/-- A request for one of the methods of a target, made of the section of the serving provider. -/
def Served (s : Settings) (q : Request) : Prop :=
  ∃ ms x shown, t.extract w.files = .ok ms ∧ x ∈ ms ∧
    Prompt.loadSample w.files (g.sample.or s.render.samplePath) = .ok shown ∧
    ((s.ofProvider (g.model.getD s.render.model).provider).client (g.model.getD s.render.model)
      s.render.maxTokens).request (g.model.getD s.render.model) (Prompt.build shown x) = .ok q

/-- All that is sent is sent to the serving provider, with its own key and nothing of the other one. -/
theorem runGenerateOn_served {s : Settings} (hsettings : loadSettings w o = .ok s) :
    ∃ requests, (runGenerateOn machine w o t g).exchange.sent = w.exchange.sent ++ requests ∧
      ∀ q ∈ requests, Served w t g s q := by
  obtain ⟨result, hidle⟩ | ⟨s', x, xs, shown, c, hasks⟩ := idle_or_asks machine w o t g
  · obtain ⟨log, hreport⟩ := hidle.report
    refine ⟨[], ?_, by simp⟩
    rw [hreport, List.append_nil]
    rfl
  · obtain rfl : s = s' := Except.ok.inj (hsettings.symm.trans hasks.settings)
    obtain ⟨k, hk⟩ := (c.pipelineFor g s shown).runOn_source machine.disk w.exchange w.files x xs
    refine ⟨c.requestsFor (g.model.getD s.render.model) shown (x :: xs.take k), ?_, ?_⟩
    · rw [hasks.report.2, hk, Client.sourceAfter_pipeline]
    · intro q hq
      obtain ⟨y, hy, hrequest⟩ := List.mem_filterMap.1 hq
      have hmem : y ∈ x :: xs := by
        rcases List.mem_cons.1 hy with rfl | hy
        · exact List.mem_cons_self
        · exact List.mem_cons_of_mem x (List.mem_of_mem_take hy)
      refine ⟨x :: xs, y, shown, hasks.methods, hmem, hasks.sample, ?_⟩
      rw [Client.ofSettings_eq_ok hasks.client]
      cases hmade : c.request (g.model.getD s.render.model) (Prompt.build shown y) with
      | error f => simp [hmade, Except.toOption] at hrequest
      | ok q' =>
        simp only [hmade, Except.toOption, Option.some.injEq] at hrequest
        rw [hrequest]

end Command

/-- Without a filter, or with one that cannot be read, the lines of the level that the command line asks for are
shown. -/
theorem filter_logFilter {env : Environment} (h : (env.lookup "SIGDOC_LOG").bind LogFilter.parse? = none)
    (o : GlobalOptions) (lines : List LogLine) :
    lines.filter (logFilter env o).shows = LogLine.shown (some o.logLevel) lines := by
  have hshows (l : LogLine) : (logFilter env o).shows l = decide (o.logLevel.rank ≤ l.level.rank) := by
    rw [logFilter, h]
    simp [LogFilter.shows, LogFilter.directiveFor?, Directive.isAbout]
  exact List.filter_congr fun l _ => hshows l

/-- Two runs that end alike. -/
structure Ending.Alike (e e' : Ending) : Prop where
  files : e.files = e'.files
  exchange : e.exchange = e'.exchange
  exitCode : e.exitCode = e'.exitCode
  stdout : e.stdout = e'.stdout
  stderr : e.stderr = e'.stderr

/-- The section of a provider that does not serve the model is of no account. Two runs on the same files and with the
same answers, in environments and with named files of settings that give settings which agree for the serving provider,
send the same requests and end alike, and they have the same log where they show the same of it. Each request is made
of the section of the serving provider. -/
theorem runProgramOn_isolated {machine : Machine} {w w' : World} {args args' : List String} {o o' : GlobalOptions}
    {t : Target} {g : GenerateOptions} {s s' : Settings} (hargs : CommandLine.parse args = .ok ⟨o, .generate t g⟩)
    (hargs' : CommandLine.parse args' = .ok ⟨o', .generate t g⟩) (hformat : o.format = o'.format)
    (hfiles : w.files = w'.files) (hexchange : w.exchange = w'.exchange) (hsettings : loadSettings w o = .ok s)
    (hsettings' : loadSettings w' o' = .ok s') (hagree : s.AgreeFor (g.model.getD s.render.model).provider s') :
    (runProgramOn machine w args).Alike (runProgramOn machine w' args') ∧
    (logFilter w.environment o = logFilter w'.environment o' →
      (runProgramOn machine w args).log = (runProgramOn machine w' args').log) ∧
    ∃ requests, (runProgramOn machine w args).exchange.sent = w.exchange.sent ++ requests ∧
      ∀ q ∈ requests, Served w t g s q := by
  -- the settings are all that the environment and the named file are read for
  have hsame : runGenerateOn machine w o t g = runGenerateOn machine w' o' t g := calc
    runGenerateOn machine w o t g = generateOn machine w o t g s := runGenerateOn_eq machine w o t g hsettings
    _ = generateOn machine w o t g s' := generateOn_congr machine w o t g hagree
    _ = generateOn machine w' o' t g s' := generateOn_seen machine t g hfiles hexchange hformat s'
    _ = runGenerateOn machine w' o' t g := (runGenerateOn_eq machine w' o' t g hsettings').symm
  obtain ⟨requests, hsent, hserved⟩ := runGenerateOn_served machine w o t g hsettings
  unfold runProgramOn
  simp only [hargs, hargs', Invocation.runOn, ← hsame]
  cases hresult : (runGenerateOn machine w o t g).result with
  | error f => exact ⟨⟨rfl, rfl, rfl, rfl, rfl⟩, fun hlog => by simp only [hlog], requests, hsent, hserved⟩
  | ok out => exact ⟨⟨rfl, rfl, rfl, rfl, rfl⟩, fun hlog => by simp only [hlog], requests, hsent, hserved⟩

/-- A run with the key and the address of the other provider set, and one without them. -/
theorem runProgramOn_isolated_other_key : ∃ (w w' : World) (args : List String) (o : GlobalOptions) (s s' : Settings),
    loadSettings w o = .ok s ∧ loadSettings w' o = .ok s' ∧
      s.anthropic = ⟨"", "https://api.anthropic.com/v1"⟩ ∧ s'.anthropic = ⟨"secret", "https://other.org"⟩ ∧
      (runProgramOn .sound w args).exchange.sent.length = 1 ∧
      (runProgramOn .sound w' args).exchange = (runProgramOn .sound w args).exchange ∧
      (runProgramOn .sound w' args).stdout = (runProgramOn .sound w args).stdout := by
  let w : World :=
    { files := ⟨[(["a.ts"], .file (encode "class A\x7bm()\x7b\x7d\x7d".toList)), (["d"], .directory)], []⟩
      environment := [("OPENAI_API_KEY", "k")]
      exchange := ⟨fun i => ["\x7b\"choices\":[\x7b\"message\":\x7b\"content\":\"X\"\x7d\x7d]\x7d"][i]?.map
        fun body => ⟨200, encode body.toList⟩, []⟩ }
  let w' : World := { w with environment :=
    [("OPENAI_API_KEY", "k"), ("CLAUDE_API_KEY", "secret"), ("SIGDOC_ANTHROPIC__BASE_URL", "https://other.org")] }
  let args : List String := ["generate", "-f", "a.ts", "-c", "A", "--out-dir", "d"]
  let o : GlobalOptions := ⟨.pretty, false, false, none⟩
  let t : Target := ⟨"a.ts", "A", none, none⟩
  let g : GenerateOptions := ⟨none, some "d", none⟩
  let s : Settings := { openAi := ⟨"k", "https://api.openai.com/v1"⟩ }
  let s' : Settings := { s with anthropic := ⟨"secret", "https://other.org"⟩ }
  have hargs : CommandLine.parse args = .ok ⟨o, .generate t g⟩ := by decide +kernel
  have hsettings : loadSettings w o = .ok s := by decide +kernel
  have hsettings' : loadSettings w' o = .ok s' := by decide +kernel
  obtain ⟨halike, -, -⟩ := @runProgramOn_isolated .sound w w' args args o o t g s s' hargs hargs rfl rfl rfl
    hsettings hsettings' ⟨rfl, rfl⟩
  exact ⟨w, w', args, o, s, s', hsettings, hsettings', rfl, rfl, by decide +kernel, halike.exchange.symm,
    halike.stdout.symm⟩

end SignatureDocs
