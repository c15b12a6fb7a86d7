import SignatureDocs.Program.Run
import SignatureDocs.Proofs.Documentation.Page
import SignatureDocs.Proofs.Program.Generate

/-!
What making documentation can do to the world around it. It ends before it asks for anything, or it asks for one
completion after another and writes to one page, and the page is the only file that it ever changes. Until a completion
has come, nothing is written at all.
-/
namespace SignatureDocs

open SignatureDocs.Text

namespace Page

/-- What writing to one page can do to a tree: the page grows at its end, and all else is as it was or as making the
output directory leaves it. -/
structure Only (dir : Path) (name : String) (t t' : FileTree) : Prop where
  grown : t.GrownAt (fun l => l = t.written (path dir name)) t'
  settled : t' = t ∨ (t'.createDirectories dir).1 = t' ∧
    ∀ l, l ≠ t.written (path dir name) → t'.get? l = (t.createDirectories dir).1.get? l

variable {dir : Path} {name : String} {t t' : FileTree}

theorem Only.refl (dir : Path) (name : String) (t : FileTree) : Only dir name t t :=
  ⟨(FileTree.Grown.refl t).grownAt _, Or.inl rfl⟩

/-- Whether a fragment is added, stops part way or fails, only its page is written to. -/
theorem Only.addTo {f : Fragment} (h : Only dir f.declarationName t t') :
    Only dir f.declarationName t (f.addTo t' dir).1 := by
  have hplace : f.place t' dir = t.written (path dir f.declarationName) := FileTree.written_congr h.grown.here _
  refine ⟨h.grown.trans ?_, Or.inr ?_⟩
  · refine (f.addTo_grownAt t' dir).mono fun l hl => ?_
    rw [hl.2, hplace]
  · obtain ⟨hmade, helse⟩ := f.addTo_settled t' dir
    rw [hplace] at helse
    refine ⟨hmade, fun l hl => (helse l hl).trans ?_⟩
    rcases h.settled with rfl | ⟨hmade', helse'⟩
    · rfl
    · rw [hmade', helse' l hl]

theorem Only.elsewhere (h : Only dir name t t') {l : Location} (hl : l ≠ t.written (path dir name)) :
    t'.get? l = t.get? l ∨ t'.get? l = (t.createDirectories dir).1.get? l := by
  rcases h.settled with rfl | ⟨-, helse⟩
  · exact Or.inl rfl
  · exact Or.inr (helse l hl)

end Page

namespace Pipeline

variable {σ : Type} (p : Pipeline σ)

/-- A run over methods of one declaration writes to one page. -/
theorem steps_only {name : String} {t : FileTree} {ms : List Method} (hnames : ∀ m ∈ ms, m.declarationName = name)
    (disk : Disk) (s : Progress σ) (h : Page.Only p.outputDir name t s.files) :
    Page.Only p.outputDir name t (p.steps disk s ms).1.files := by
  induction ms generalizing disk s with
  | nil => exact h
  | cons m ms ih =>
    obtain ⟨s', fault, hstep, -, hcases⟩ := p.step_cases (disk 0) s m
    have hnext : Page.Only p.outputDir name t s'.files := by
      have hadd (text : String) : Page.Only p.outputDir name t
          (Page.appendOn (disk 0) s.files p.outputDir m.declarationName text).1 := by
        rw [hnames m List.mem_cons_self]
        exact Page.Only.addTo (f := ⟨name, text, disk 0⟩) h
      obtain ⟨f, -, -, hfiles, -⟩ | ⟨text, f, -, -, hpage, -⟩ | ⟨text, page, -, -, hpage, -⟩ := hcases
      · rwa [hfiles]
      · simpa only [hpage] using hadd text
      · simpa only [hpage] using hadd text
    rw [steps, hstep]
    cases fault with
    | some f => exact hnext
    | none => exact ih (fun x hx => hnames x (List.mem_cons_of_mem m hx)) _ s' hnext

/-- A run asks for a completion for its first method, and then for others in turn. -/
theorem steps_source (disk : Disk) (s : Progress σ) (m : Method) (ms : List Method) :
    ∃ k, (p.steps disk s (m :: ms)).1.source = p.sourceAfter s.source (m :: ms.take k) := by
  induction ms generalizing disk s m with
  | nil =>
    obtain ⟨s', fault, hstep, hsource, -⟩ := p.step_cases (disk 0) s m
    refine ⟨0, ?_⟩
    rw [steps, hstep]
    cases fault <;> exact hsource
  | cons m' ms ih =>
    obtain ⟨s', fault, hstep, hsource, -⟩ := p.step_cases (disk 0) s m
    rw [steps, hstep]
    cases fault with
    | some f => exact ⟨0, hsource⟩
    | none =>
      obtain ⟨k, hk⟩ := ih _ s' m'
      refine ⟨k + 1, hk.trans ?_⟩
      rw [hsource, List.take_succ_cons]
      rfl

variable (disk : Disk) (source : σ) (files : FileTree)

theorem runOn_only {name : String} {ms : List Method} (hnames : ∀ m ∈ ms, m.declarationName = name) :
    Page.Only p.outputDir name files (p.runOn disk source files ms).1.files :=
  p.steps_only hnames disk _ (.refl _ _ _)

theorem runOn_source (m : Method) (ms : List Method) :
    ∃ k, (p.runOn disk source files (m :: ms)).1.source = p.sourceAfter source (m :: ms.take k) :=
  p.steps_source disk _ m ms

/-- Without a first completion nothing is written and nothing more is asked. -/
theorem runOn_refused {m : Method} {f : CompletionFault} (h : p.replyTo source m = .error f) (ms : List Method) :
    (p.runOn disk source files (m :: ms)).1.files = files ∧
      (p.runOn disk source files (m :: ms)).1.source = p.sourceAfter source [m] := by
  unfold runOn
  rw [steps]
  obtain ⟨s', fault, hstep, hsource, hcases⟩ := p.step_cases (disk 0) _ m
  rw [hstep]
  obtain ⟨g, -, rfl, hfiles, -⟩ | ⟨text, g, hok, -⟩ | ⟨text, page, hok, -⟩ := hcases
  · exact ⟨hfiles, hsource⟩
  · cases h.symm.trans hok
  · cases h.symm.trans hok

end Pipeline

section Command

variable (machine : Machine) (w : World) (o : GlobalOptions) (t : Target) (g : GenerateOptions)

/-- The command ends before it asks for a completion, with this result. -/
inductive Idle : Except Failure String → Prop where
  | settings {f : Failure} (fault : loadSettings w o = .error f) : Idle (.error f)
  | extraction {s : Settings} {f : Failure} (settings : loadSettings w o = .ok s)
      (fault : t.extract w.files = .error f) : Idle (.error f)
  | unmatched {s : Settings} (settings : loadSettings w o = .ok s) (methods : t.extract w.files = .ok []) :
      Idle (.ok (printed o.format (GenerateSummary.toJson ⟨t.declarationName, g.model.getD s.render.model, {}⟩)))
  | sample {s : Settings} {x : Method} {xs : List Method} {f : PathFault} (settings : loadSettings w o = .ok s)
      (methods : t.extract w.files = .ok (x :: xs))
      (fault : Prompt.loadSample w.files (g.sample.or s.render.samplePath) = .error f) : Idle (.error (.sample f))
  | key {s : Settings} {x : Method} {xs : List Method} {shown : String} {f : MissingKey}
      (settings : loadSettings w o = .ok s) (methods : t.extract w.files = .ok (x :: xs))
      (sample : Prompt.loadSample w.files (g.sample.or s.render.samplePath) = .ok shown)
      (fault : Client.ofSettings s (g.model.getD s.render.model) = .error f) :
      Idle (.error (.provider (g.model.getD s.render.model) f))
  | connection {s : Settings} {x : Method} {xs : List Method} {shown : String} {c : Client} {f : HttpFault}
      (settings : loadSettings w o = .ok s) (methods : t.extract w.files = .ok (x :: xs))
      (sample : Prompt.loadSample w.files (g.sample.or s.render.samplePath) = .ok shown)
      (client : Client.ofSettings s (g.model.getD s.render.model) = .ok c)
      (fault : machine.noClient s.render.timeoutSecs = some f) :
      Idle (.error (.connection (g.model.getD s.render.model) f))

/-- The command comes as far as to ask for a completion for the first of its methods. -/
structure Asks (s : Settings) (x : Method) (xs : List Method) (shown : String) (c : Client) : Prop where
  settings : loadSettings w o = .ok s
  methods : t.extract w.files = .ok (x :: xs)
  sample : Prompt.loadSample w.files (g.sample.or s.render.samplePath) = .ok shown
  client : Client.ofSettings s (g.model.getD s.render.model) = .ok c
  connection : machine.noClient s.render.timeoutSecs = none

theorem idle_or_asks : (∃ result, Idle machine w o t g result) ∨
    ∃ s x xs shown c, Asks machine w o t g s x xs shown c := by
  cases hsettings : loadSettings w o with
  | error f => exact Or.inl ⟨_, .settings hsettings⟩
  | ok s =>
    rcases hmethods : t.extract w.files with f | _ | ⟨x, xs⟩
    · exact Or.inl ⟨_, .extraction hsettings hmethods⟩
    · exact Or.inl ⟨_, .unmatched hsettings hmethods⟩
    · cases hsample : Prompt.loadSample w.files (g.sample.or s.render.samplePath) with
      | error f => exact Or.inl ⟨_, .sample hsettings hmethods hsample⟩
      | ok shown =>
        cases hclient : Client.ofSettings s (g.model.getD s.render.model) with
        | error f => exact Or.inl ⟨_, .key hsettings hmethods hsample hclient⟩
        | ok c =>
          cases hconnection : machine.noClient s.render.timeoutSecs with
          | some f => exact Or.inl ⟨_, .connection hsettings hmethods hsample hclient hconnection⟩
          | none => exact Or.inr ⟨s, x, xs, shown, c, hsettings, hmethods, hsample, hclient, hconnection⟩

variable {machine w o t g}

theorem Idle.report {result : Except Failure String} (h : Idle machine w o t g result) :
    ∃ log, runGenerateOn machine w o t g = w.report result log := by
  unfold runGenerateOn generateOn
  cases h with
  | settings hfault => exact ⟨_, by simp only [hfault]; rfl⟩
  | extraction hsettings hfault => exact ⟨_, by simp only [hsettings, hfault]; rfl⟩
  | unmatched hsettings hmethods => exact ⟨_, by simp only [hsettings, hmethods]; rfl⟩
  | sample hsettings hmethods hfault => exact ⟨_, by simp only [hsettings, hmethods, hfault]; rfl⟩
  | key hsettings hmethods hsample hfault => exact ⟨_, by simp only [hsettings, hmethods, hsample, hfault]; rfl⟩
  | connection hsettings hmethods hsample hclient hfault =>
    exact ⟨_, by simp only [hsettings, hmethods, hsample, hclient, hfault]; rfl⟩

variable {s : Settings} {x : Method} {xs : List Method} {shown : String} {c : Client}

/-- The pipeline that options and settings ask for. -/
abbrev Client.pipelineFor (c : Client) (g : GenerateOptions) (s : Settings) (shown : String) : Pipeline Exchange :=
  c.pipeline (g.model.getD s.render.model) shown (g.outDir.getD s.render.outputDir)

theorem Asks.report (h : Asks machine w o t g s x xs shown c) :
    (runGenerateOn machine w o t g).files =
        ((c.pipelineFor g s shown).runOn machine.disk w.exchange w.files (x :: xs)).1.files ∧
      (runGenerateOn machine w o t g).exchange =
        ((c.pipelineFor g s shown).runOn machine.disk w.exchange w.files (x :: xs)).1.source := by
  unfold runGenerateOn generateOn
  simp only [h.settings, h.methods, h.sample, h.client, h.connection]
  exact ⟨trivial, trivial⟩

/-- One of the requests that have been sent since got a completion for an answer. -/
def Completed (w : World) (o : GlobalOptions) (g : GenerateOptions) (after : Exchange) : Prop :=
  ∃ s c, loadSettings w o = .ok s ∧ Client.ofSettings s (g.model.getD s.render.model) = .ok c ∧
    ∃ i q response text, w.exchange.sent.length ≤ i ∧ after.sent[i]? = some q ∧
      w.exchange.answer i = some response ∧ c.receive (g.model.getD s.render.model) q.url response = .ok text

variable (machine w o t g) in
/-- The command ends before it asks for a completion, or the first one that it asks for does not come. -/
inductive Fruitless : Prop where
  | idle {result : Except Failure String} (idle : Idle machine w o t g result)
  | refused {s : Settings} {x : Method} {xs : List Method} {shown : String} {c : Client} {f : CompletionFault}
      (asks : Asks machine w o t g s x xs shown c)
      (fault : (c.complete w.exchange (g.model.getD s.render.model) (Prompt.build shown x)).2 = .error f)

theorem Client.complete_eq_ok {e : Exchange} {m : Model} {prompt text : String}
    (h : (c.complete e m prompt).2 = .ok text) : ∃ q response, c.request m prompt = .ok q ∧
      e.answer e.sent.length = some response ∧ c.receive m q.url response = .ok text := by
  unfold Client.complete Exchange.send at h
  cases hrequest : c.request m prompt with
  | error f => simp [hrequest] at h
  | ok q =>
    cases hanswer : e.answer e.sent.length with
    | none => simp [hrequest, hanswer] at h
    | some response => exact ⟨q, response, rfl, rfl, by simpa [hrequest, hanswer] using h⟩

theorem Idle.not_completed {result : Except Failure String} (h : Idle machine w o t g result) :
    ¬ Completed w o g (runGenerateOn machine w o t g).exchange := by
  obtain ⟨log, hreport⟩ := h.report
  rw [hreport]
  rintro ⟨s, c, -, -, i, q, response, text, hi, hq, -⟩
  have hnone : w.exchange.sent[i]? = none := List.getElem?_eq_none hi
  exact absurd (hq.symm.trans hnone) (by simp)

/-- Without a first completion there is none: at most one request was sent, and its answer was none. -/
theorem Asks.not_completed (h : Asks machine w o t g s x xs shown c) {f : CompletionFault}
    (hfault : (c.complete w.exchange (g.model.getD s.render.model) (Prompt.build shown x)).2 = .error f) :
    (runGenerateOn machine w o t g).files = w.files ∧
      ¬ Completed w o g (runGenerateOn machine w o t g).exchange := by
  obtain ⟨hfiles, hexchange⟩ := h.report
  have hreply : (c.pipelineFor g s shown).replyTo w.exchange x = .error f := hfault
  obtain ⟨hsame, hsource⟩ := Pipeline.runOn_refused _ machine.disk w.exchange w.files hreply xs
  refine ⟨hfiles.trans hsame, ?_⟩
  rw [hexchange, hsource, Client.sourceAfter_pipeline]
  rintro ⟨s', c', hs', hc', i, q, response, text, hi, hq, hanswer, hreceive⟩
  obtain rfl : s = s' := Except.ok.inj (h.settings.symm.trans hs')
  obtain rfl : c = c' := Except.ok.inj (h.client.symm.trans hc')
  rw [List.getElem?_append_right hi] at hq
  unfold Client.requestsFor at hq
  cases hrequest : c.request (g.model.getD s.render.model) (Prompt.build shown x) with
  | error f' => simp [hrequest, Except.toOption] at hq
  | ok q' =>
    -- the request is the one whose answer was no completion
    have hlast : i = w.exchange.sent.length ∧ q' = q := by
      simp only [List.filterMap_cons, hrequest, Except.toOption, List.filterMap_nil,
        List.getElem?_singleton] at hq
      split_ifs at hq with hzero
      exact ⟨by omega, Option.some.inj hq⟩
    obtain ⟨rfl, rfl⟩ := hlast
    simp [Client.complete, Exchange.send, hrequest, hanswer, hreceive] at hfault

/-- With a first completion there is one, whatever comes after it. -/
theorem Asks.completed (h : Asks machine w o t g s x xs shown c) {text : String}
    (hfirst : (c.complete w.exchange (g.model.getD s.render.model) (Prompt.build shown x)).2 = .ok text) :
    Completed w o g (runGenerateOn machine w o t g).exchange := by
  obtain ⟨-, hexchange⟩ := h.report
  obtain ⟨q, response, hrequest, hanswer, hreceive⟩ := Client.complete_eq_ok hfirst
  refine ⟨s, c, h.settings, h.client, w.exchange.sent.length, q, response, text, le_rfl, ?_, hanswer, hreceive⟩
  obtain ⟨k, hk⟩ := (c.pipelineFor g s shown).runOn_source machine.disk w.exchange w.files x xs
  have hcons : c.requestsFor (g.model.getD s.render.model) shown (x :: xs.take k) =
      q :: c.requestsFor (g.model.getD s.render.model) shown (xs.take k) := by
    simp [Client.requestsFor, hrequest, Except.toOption]
  rw [hexchange, hk, Client.sourceAfter_pipeline, hcons]
  simp

theorem completed_or_fruitless :
    Completed w o g (runGenerateOn machine w o t g).exchange ∨ Fruitless machine w o t g := by
  obtain ⟨result, hidle⟩ | ⟨s, x, xs, shown, c, hasks⟩ := idle_or_asks machine w o t g
  · exact Or.inr (.idle hidle)
  · cases hfirst : (c.complete w.exchange (g.model.getD s.render.model) (Prompt.build shown x)).2 with
    | error f => exact Or.inr (.refused hasks hfirst)
    | ok text => exact Or.inl (hasks.completed hfirst)

theorem Fruitless.not_completed (h : Fruitless machine w o t g) :
    ¬ Completed w o g (runGenerateOn machine w o t g).exchange := by
  cases h with
  | idle hidle => exact hidle.not_completed
  | refused hasks hfault => exact (hasks.not_completed hfault).2

theorem Fruitless.files (h : Fruitless machine w o t g) : (runGenerateOn machine w o t g).files = w.files := by
  cases h with
  | idle hidle =>
    obtain ⟨log, hreport⟩ := hidle.report
    rw [hreport]
    rfl
  | refused hasks hfault => exact (hasks.not_completed hfault).1

/-- Whatever happens, only the page of the declaration is written to. -/
theorem runGenerateOn_only (hsettings : loadSettings w o = .ok s) :
    Page.Only (g.outDir.getD s.render.outputDir) t.declarationName w.files (runGenerateOn machine w o t g).files := by
  obtain ⟨result, hidle⟩ | ⟨s', x, xs, shown, c, hasks⟩ := idle_or_asks machine w o t g
  · rw [(Fruitless.idle hidle).files]
    exact .refl _ _ _
  · obtain rfl : s = s' := Except.ok.inj (hsettings.symm.trans hasks.settings)
    rw [hasks.report.1]
    exact (c.pipelineFor g s shown).runOn_only machine.disk w.exchange w.files
      (Target.extract_declarationName hasks.methods)

variable (machine w o t g) in
/-- What the program does to the world when it is asked for documentation. -/
structure Contained (e : Ending) : Prop where
  /-- The reasons why no completion comes. -/
  fruitless : ¬ Completed w o g e.exchange ↔ Fruitless machine w o t g
  /-- Without a completion no file and no directory changes. -/
  unchanged : ¬ Completed w o g e.exchange → e.files = w.files
  /-- Without methods nothing is asked for, and neither a key nor an example is looked for. -/
  unmatched : ∀ s, loadSettings w o = .ok s → t.extract w.files = .ok [] →
    e.exitCode = 0 ∧ e.stderr = "" ∧ e.exchange = w.exchange ∧ e.stdout = printed o.format
      (GenerateSummary.toJson ⟨t.declarationName, g.model.getD s.render.model, {}⟩)
  failed : ∀ f, (runGenerateOn machine w o t g).result = .error f →
    e.exitCode = 1 ∧ e.stdout = "" ∧ e.stderr = "sigdoc error: " ++ f.message ++ "\n"
  /-- The page may grow at its end, and the directories of its path may come up. -/
  frame : ∀ s page, loadSettings w o = .ok s →
    page = w.files.written (Page.path (g.outDir.getD s.render.outputDir) t.declarationName) →
    w.files.GrownAt (fun l => l = page) e.files ∧ ∀ l, l ≠ page → e.files.get? l = w.files.get? l ∨
      e.files.get? l = (w.files.createDirectories (g.outDir.getD s.render.outputDir)).1.get? l

/-- Whatever the files, the settings, the answers and the machine are, the program keeps to the page of the declaration,
even if the disk stops it in the middle of a write. It writes only after a completion has come, says nothing but its
fault if it fails, and needs nothing where nothing is wanted. -/
theorem runProgramOn_contained {args : List String} (hargs : CommandLine.parse args = .ok ⟨o, .generate t g⟩) :
    Contained machine w o t g (runProgramOn machine w args) := by
  have hprogram : (runProgramOn machine w args).files = (runGenerateOn machine w o t g).files ∧
      (runProgramOn machine w args).exchange = (runGenerateOn machine w o t g).exchange := by
    unfold runProgramOn
    simp only [hargs, Invocation.runOn]
    cases (runGenerateOn machine w o t g).result <;> exact ⟨rfl, rfl⟩
  obtain ⟨hfiles, hexchange⟩ := hprogram
  have hfruitless : ¬ Completed w o g (runProgramOn machine w args).exchange ↔ Fruitless machine w o t g := by
    rw [hexchange]
    exact ⟨completed_or_fruitless.resolve_left, Fruitless.not_completed⟩
  constructor
  case fruitless => exact hfruitless
  case unchanged =>
    intro h
    rw [hfiles]
    exact (hfruitless.1 h).files
  case unmatched =>
    intro s hsettings hmethods
    have hidle : Idle machine w o t g _ := .unmatched hsettings hmethods
    obtain ⟨log, hreport⟩ := hidle.report
    unfold runProgramOn
    simp only [hargs, Invocation.runOn, hreport, World.report]
    exact ⟨trivial, trivial, trivial, trivial⟩
  case failed =>
    intro f hf
    unfold runProgramOn
    simp only [hargs, Invocation.runOn, hf]
    exact ⟨trivial, trivial, trivial⟩
  case frame =>
    rintro s page hsettings rfl
    have honly : Page.Only _ t.declarationName w.files (runGenerateOn machine w o t g).files :=
      runGenerateOn_only hsettings
    rw [hfiles]
    exact ⟨honly.grown, fun l hl => honly.elsewhere hl⟩

/-- The disk takes one byte of the second of two completions: the page has this byte behind the first completion, and
the program fails. -/
theorem runProgramOn_contained_interrupted : ∃ (machine : Machine) (w : World) (args : List String)
    (o : GlobalOptions) (t : Target) (g : GenerateOptions), CommandLine.parse args = .ok ⟨o, .generate t g⟩ ∧
      (runProgramOn machine w args).exitCode = 1 ∧ (runProgramOn machine w args).stdout = "" ∧
      (runProgramOn machine w args).files.contentAt ["d", "A.md"] = some (encode "old\nX\n\nY".toList) ∧
      ∀ l, l ≠ ["d", "A.md"] → (runProgramOn machine w args).files.get? l = w.files.get? l := by
  let machine : Machine := ⟨fun _ => none, fun i => if i = 0 then .enough else .only 1 "No space left on device"⟩
  let w : World :=
    { files := ⟨[(["a.ts"], .file (encode "class A\x7bm()\x7b\x7d n()\x7b\x7d\x7d".toList)),
        (["d"], .directory), (["d", "A.md"], .file (encode "old\n".toList))], []⟩
      environment := [("OPENAI_API_KEY", "k")]
      exchange := ⟨fun i => ["\x7b\"choices\":[\x7b\"message\":\x7b\"content\":\"X\"\x7d\x7d]\x7d",
        "\x7b\"choices\":[\x7b\"message\":\x7b\"content\":\"YZ\"\x7d\x7d]\x7d"][i]?.map
          fun body => ⟨200, encode body.toList⟩, []⟩ }
  let args : List String := ["generate", "-f", "a.ts", "-c", "A", "--out-dir", "d"]
  let o : GlobalOptions := ⟨.pretty, false, false, none⟩
  let t : Target := ⟨"a.ts", "A", none, none⟩
  let g : GenerateOptions := ⟨none, some "d", none⟩
  let s : Settings := { openAi := ⟨"k", "https://api.openai.com/v1"⟩ }
  have hargs : CommandLine.parse args = .ok ⟨o, .generate t g⟩ := by decide +kernel
  have hsettings : loadSettings w o = .ok s := by decide +kernel
  have hresult : (runGenerateOn machine w o t g).result = .error (.generation (.storage
      ⟨"d/A.md", .unwritten "No space left on device"⟩)) := by decide +kernel
  have hcontained : Contained machine w o t g (runProgramOn machine w args) := runProgramOn_contained hargs
  have hmade : (w.files.createDirectories "d").1 = w.files := by decide +kernel
  have hfailed := hcontained.failed _ hresult
  have helse := (hcontained.frame s ["d", "A.md"] hsettings (by decide +kernel)).2
  refine ⟨machine, w, args, o, t, g, hargs, hfailed.1, hfailed.2.1, by decide +kernel, fun l hl => ?_⟩
  rcases helse l hl with hsame | hnew
  · exact hsame
  · exact hnew.trans (congrArg (fun tree : FileTree => tree.get? l) hmade)

end Command

end SignatureDocs
