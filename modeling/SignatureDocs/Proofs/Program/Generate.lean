import SignatureDocs.Proofs.Documentation.Pipeline
import SignatureDocs.Proofs.Except
import SignatureDocs.Proofs.Outline.Walk
import SignatureDocs.Proofs.Program.Printed

/-!
The two commands together: what is documented is what would be printed. Each method that is found is asked for once, in
the words of its prompt. All of them carry the wanted name, so all their fragments go to one page.
-/
namespace SignatureDocs

open SignatureDocs.Text SignatureDocs.Grammar

theorem extract_declarationName {d : Dialect} {source : List Char} {s : Selection} {ms : List Method}
    (h : extract d source s = .ok ms) : ∀ m ∈ ms, m.declarationName = s.declarationName := by
  obtain ⟨ts, c, r, -, -, rfl⟩ := extract_eq_ok h
  intro m hm
  obtain ⟨row, -, hrow⟩ := List.mem_flatMap.1 hm
  obtain ⟨hname, member, -, -, name, rfl⟩ := Declaration.mem_methods hrow
  exact hname

/-- Every method of a target is one of the wanted declaration. -/
theorem Target.extract_declarationName {t : Target} {files : FileTree} {ms : List Method}
    (h : t.extract files = .ok ms) : ∀ m ∈ ms, m.declarationName = t.declarationName := by
  unfold Target.extract extractFile at h
  split at h
  · simp [Except.mapError] at h
  · next source hsource =>
    cases hextract : SignatureDocs.extract (Dialect.ofPath t.file) source t.selection with
    | error f => simp [hextract, Except.mapError] at h
    | ok found =>
      simp only [hextract, Except.mapError, Except.ok.injEq] at h
      subst h
      exact SignatureDocs.extract_declarationName hextract

/-- A request to complete a prompt, as its receiver reads it: the name of the model, and one message of the user, which
is the prompt. Where the provider wants to know how long the answer may be, this is said as well. -/
structure Request.Asks (q : Request) (m : Model) (maxTokens : UInt32) (prompt : String) : Prop where
  chat : m.provider = .openAi → readPrinted? q.body = some (.record [("model", .ofString m.providerName),
    ("messages", .array [.record [("role", .ofString "user"), ("content", .ofString prompt)]])])
  messages : m.provider = .anthropic → readPrinted? q.body = some (.record [("model", .ofString m.providerName),
    ("max_tokens", .ofNat maxTokens.toNat),
    ("messages", .array [.record [("role", .ofString "user"), ("content", .ofString prompt)]])])

namespace Client

/-- The requests for the prompts of methods, of those for which there is one. -/
def requestsFor (c : Client) (m : Model) (sample : String) (ms : List Method) : List Request :=
  ms.filterMap fun x => (c.request m (Prompt.build sample x)).toOption

/-- The answers to the next requests are completions: the texts, one for each method. -/
structure Completes (c : Client) (m : Model) (sample : String) (e : Exchange) (ms : List Method)
    (texts : List String) : Prop where
  length : texts.length = ms.length
  answered : ∀ i x text, ms[i]? = some x → texts[i]? = some text →
    ∃ q response, c.request m (Prompt.build sample x) = .ok q ∧
      e.answer (e.sent.length + i) = some response ∧ c.receive m q.url response = .ok text

variable {c : Client} {m : Model} {sample : String}

/-- Asking for completions sends the requests for them and nothing else. -/
theorem sourceAfter_pipeline (c : Client) (m : Model) (sample : String) (outputDir : Path) (e : Exchange)
    (ms : List Method) : (c.pipeline m sample outputDir).sourceAfter e ms =
      { e with sent := e.sent ++ c.requestsFor m sample ms } := by
  induction ms generalizing e with
  | nil => simp [Pipeline.sourceAfter, requestsFor]
  | cons x ms ih =>
    have hone : (c.complete e m (Prompt.build sample x)).1 =
        { e with sent := e.sent ++ c.requestsFor m sample [x] } := by
      unfold complete requestsFor
      cases hrequest : c.request m (Prompt.build sample x) with
      | error f => simp [Except.toOption, hrequest]
      | ok q => cases hanswer : e.answer e.sent.length <;> simp [Except.toOption, hrequest, Exchange.send, hanswer]
    rw [Pipeline.sourceAfter, List.foldl_cons]
    refine (ih _).trans ?_
    simp only [pipeline, hone, List.append_assoc, requestsFor, ← List.filterMap_append, List.singleton_append]

theorem requestsFor_forall₂ {ms : List Method} (h : ∀ x ∈ ms, ∃ q, c.request m (Prompt.build sample x) = .ok q) :
    List.Forall₂ (fun x q => c.request m (Prompt.build sample x) = .ok q) ms (c.requestsFor m sample ms) := by
  induction ms with
  | nil => exact .nil
  | cons x ms ih =>
    obtain ⟨q, hq⟩ := h x List.mem_cons_self
    have hcons : c.requestsFor m sample (x :: ms) = q :: c.requestsFor m sample ms := by
      simp [requestsFor, hq, Except.toOption]
    rw [hcons]
    exact .cons hq (ih fun y hy => h y (List.mem_cons_of_mem x hy))

theorem Completes.request {e : Exchange} {ms : List Method} {texts : List String}
    (h : c.Completes m sample e ms texts) : ∀ x ∈ ms, ∃ q, c.request m (Prompt.build sample x) = .ok q := by
  intro x hx
  obtain ⟨i, hi⟩ := List.mem_iff_getElem?.1 hx
  have hlt : i < texts.length := by
    rw [h.length]
    exact (List.getElem?_eq_some_iff.1 hi).1
  obtain ⟨q, -, hq, -⟩ := h.answered i x _ hi (List.getElem?_eq_getElem hlt)
  exact ⟨q, hq⟩

/-- The completion for each method is its text. -/
theorem Completes.replyTo {e : Exchange} {ms : List Method} {texts : List String}
    (h : c.Completes m sample e ms texts) (outputDir : Path) {before after : List Method} {x : Method}
    (heq : ms = before ++ x :: after) :
    (c.pipeline m sample outputDir).replyTo ((c.pipeline m sample outputDir).sourceAfter e before) x =
      .ok (texts.getD before.length "") := by
  have hlt : before.length < texts.length := by
    rw [h.length, heq]
    simp
  have hx : ms[before.length]? = some x := by rw [heq, List.getElem?_append_right le_rfl]; simp
  obtain ⟨q, response, hrequest, hanswer, hreceive⟩ :=
    h.answered before.length x _ hx (List.getElem?_eq_getElem hlt)
  have hsent : (c.requestsFor m sample before).length = before.length :=
    (requestsFor_forall₂ fun y hy => h.request y (heq ▸ List.mem_append_left _ hy)).length_eq.symm
  rw [sourceAfter_pipeline]
  simp [Pipeline.replyTo, pipeline, complete, Exchange.send, hrequest, hsent, hanswer, hreceive, hlt]

end Client

namespace Pipeline

variable {σ : Type} {p : Pipeline σ} {disk : Disk} {s : Progress σ} {ms rest : List Method} {texts : List String}
  {done : List (Method × String)} {r : Progress σ × Option RenderFault} {name : String}

end Pipeline

end SignatureDocs
