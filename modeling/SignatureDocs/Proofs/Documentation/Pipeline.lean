import SignatureDocs.Documentation.Pipeline
import SignatureDocs.Proofs.Storage.FileTree

/-!
What a run over methods asks for, writes and reports. A step asks for one completion and adds it to one page, or
fails; so a run leaves in every file what was added to it up to the first failure, and nothing of what comes after. A
step that fails changes no file, except that a write which stops leaves in its page the part that there was room for.
-/
namespace SignatureDocs

open SignatureDocs.Text

/-- What a place holds after parts have been added to it in turn. -/
def extended (old : Option (List UInt8)) (parts : List (List UInt8)) : Option (List UInt8) :=
  if parts.isEmpty then old else some (old.getD [] ++ parts.flatten)

theorem extended_cons (old : Option (List UInt8)) (bytes : List UInt8) (parts : List (List UInt8)) :
    extended old (bytes :: parts) = extended (some (old.getD [] ++ bytes)) parts := by
  cases parts <;> simp [extended]

theorem extended_concat (old : Option (List UInt8)) (parts : List (List UInt8)) (bytes : List UInt8) :
    extended old (parts ++ [bytes]) = some ((extended old parts).getD [] ++ bytes) := by
  cases parts <;> simp [extended]

namespace Page

variable {room : Room} {t t' : FileTree} {dir : Path} {name fragment : String}

/-- What adding to a page comes to: it fails at the output directory or at the page, the write stops, or all of the
fragment is added. -/
inductive Appended (room : Room) (t : FileTree) (dir : Path) (name fragment : String) :
    FileTree × Except PathFault Path → Prop where
  | unmade {t₁ : FileTree} {f : FileFault} (made : t.createDirectories dir = (t₁, some f)) :
      Appended room t dir name fragment (t₁, .error ⟨dir, f⟩)
  | unopened {t₁ : FileTree} {f : FileFault} (made : t.createDirectories dir = (t₁, none))
      (opened : t₁.openEnd (path dir name) = .error f) :
      Appended room t dir name fragment (t₁, .error ⟨path dir name, f⟩)
  | stopped {t₁ : FileTree} {l : Location} {old : List UInt8} {f : FileFault}
      (made : t.createDirectories dir = (t₁, none)) (opened : t₁.openEnd (path dir name) = .ok (l, old))
      (stops : room.fault? (encode (addition name fragment)) = some f) :
      Appended room t dir name fragment
        (t₁.put l (.file (old ++ room.taken (encode (addition name fragment)))), .error ⟨path dir name, f⟩)
  | added {t₁ : FileTree} {l : Location} {old : List UInt8} (made : t.createDirectories dir = (t₁, none))
      (opened : t₁.openEnd (path dir name) = .ok (l, old))
      (fits : room.fault? (encode (addition name fragment)) = none) :
      Appended room t dir name fragment
        (t₁.put l (.file (old ++ encode (addition name fragment))), .ok (path dir name))

theorem appendOn_appended (room : Room) (t : FileTree) (dir : Path) (name fragment : String) :
    Appended room t dir name fragment (appendOn room t dir name fragment) := by
  unfold appendOn FileTree.append
  rcases hmade : t.createDirectories dir with ⟨t₁, _ | f⟩
  · dsimp only
    rcases hopened : t₁.openEnd (path dir name) with f | ⟨l, old⟩
    · exact .unopened hmade hopened
    · cases hroom : room.fault? (encode (addition name fragment)) with
      | some f => exact .stopped hmade hopened hroom
      | none =>
        have hadded : Appended room t dir name fragment _ := .added hmade hopened hroom
        simpa only [Room.taken_of_fault?_eq_none hroom] using hadded
  · exact .unmade hmade

/-- In a page that was opened, some bytes come behind those before, and no other file changes. -/
theorem contentAt_opened {t₁ : FileTree} {l : Location} {old : List UInt8}
    (hmade : t.createDirectories dir = (t₁, none)) (hopened : t₁.openEnd (path dir name) = .ok (l, old))
    (more : List UInt8) : (t₁.put l (.file (old ++ more))).here = t.here ∧
      ∀ l', (t₁.put l (.file (old ++ more))).contentAt l' = if l' = t.written (path dir name)
        then some ((t.contentAt l').getD [] ++ more) else t.contentAt l' := by
  have hgrown := FileTree.createDirectories_grown t dir
  rw [hmade] at hgrown
  obtain ⟨rfl, hne, -, -, rfl⟩ := FileTree.openEnd_eq_ok hopened
  refine ⟨hgrown.here, fun l' => ?_⟩
  rw [FileTree.contentAt_put_file t₁ hne, FileTree.written_congr hgrown.here, hgrown.contentAt, hgrown.contentAt]
  split_ifs with hl
  · rw [hl]
  · rfl

/-- Where adding to a page fails without its write having stopped, no file has changed. -/
theorem appendOn_eq_error {f : PathFault} (h : appendOn room t dir name fragment = (t', .error f))
    (hstop : f.fault.isStop = false) : t.Grown t' := by
  have hgrown := FileTree.createDirectories_grown t dir
  have happended := appendOn_appended room t dir name fragment
  rw [h] at happended
  cases happended with
  | unmade hmade => rwa [hmade] at hgrown
  | unopened hmade => rwa [hmade] at hgrown
  | stopped hmade hopened hstops =>
    obtain ⟨n, cause, -, -, rfl⟩ := Room.fault?_eq_some.1 hstops
    cases hstop

/-- Where the write to a page stops, the page has got a first part of the fragment, and no other file has changed. -/
theorem appendOn_eq_stop {f : PathFault} (h : appendOn room t dir name fragment = (t', .error f))
    (hstop : f.fault.isStop = true) : ∃ n cause, room = .only n cause ∧
      n < (encode (addition name fragment)).length ∧ f = ⟨path dir name, .unwritten cause⟩ ∧ t'.here = t.here ∧
      ∀ l, t'.contentAt l = if l = t.written (path dir name)
        then some ((t.contentAt l).getD [] ++ (encode (addition name fragment)).take n) else t.contentAt l := by
  have happended := appendOn_appended room t dir name fragment
  rw [h] at happended
  cases happended with
  | unmade hmade =>
    have hfault := FileTree.createDirectories_isStop (t := t) (p := dir) (by rw [hmade])
    exact absurd (hfault.symm.trans hstop) (by simp)
  | unopened hmade hopened => exact absurd ((FileTree.openEnd_isStop hopened).symm.trans hstop) (by simp)
  | stopped hmade hopened hstops =>
    obtain ⟨n, cause, rfl, hn, rfl⟩ := Room.fault?_eq_some.1 hstops
    obtain ⟨hhere, hcontents⟩ := contentAt_opened hmade hopened ((encode (addition name fragment)).take n)
    exact ⟨n, cause, rfl, hn, rfl, hhere, hcontents⟩

/-- Adding to a page adds to its file and changes no other. -/
theorem appendOn_eq_ok {p : Path} (h : appendOn room t dir name fragment = (t', .ok p)) :
    p = path dir name ∧ t'.here = t.here ∧
      ∀ l, t'.contentAt l = if l = t.written (path dir name)
        then some ((t.contentAt l).getD [] ++ encode (addition name fragment)) else t.contentAt l := by
  have happended := appendOn_appended room t dir name fragment
  rw [h] at happended
  cases happended with
  | added hmade hopened hfits => exact ⟨rfl, contentAt_opened hmade hopened _⟩

/-- What is added where there is room for it is added in the same way wherever there is. -/
theorem appendOn_fits {p : Path} (h : appendOn room t dir name fragment = (t', .ok p)) {room' : Room}
    (hroom : room'.fault? (encode (addition name fragment)) = none) :
    appendOn room' t dir name fragment = (t', .ok p) := by
  have happended := appendOn_appended room t dir name fragment
  rw [h] at happended
  cases happended with
  | added hmade hopened hfits =>
    simp only [appendOn, FileTree.append, hmade, hopened, hroom, Room.taken_of_fault?_eq_none hroom]

/-- The parts that fragments add to a place, in their order. -/
def additionsTo (t : FileTree) (dir : Path) (l : Location) (done : List (Method × String)) : List (List UInt8) :=
  (done.filter fun q => t.written (path dir q.1.declarationName) = l).map fun q =>
    encode (addition q.1.declarationName q.2)

theorem additionsTo_congr (h : t'.here = t.here) (dir : Path) (l : Location)
    (done : List (Method × String)) : additionsTo t' dir l done = additionsTo t dir l done := by
  unfold additionsTo
  simp only [FileTree.written_congr h]

theorem additionsTo_cons (t : FileTree) (dir : Path) (l : Location) (m : Method) (text : String)
    (done : List (Method × String)) :
    additionsTo t dir l ((m, text) :: done) = if t.written (path dir m.declarationName) = l
      then encode (addition m.declarationName text) :: additionsTo t dir l done
      else additionsTo t dir l done := by
  unfold additionsTo
  by_cases hl : t.written (path dir m.declarationName) = l <;> simp [hl]

end Page

theorem Path.same_comm (p q : Path) : Path.same p q = Path.same q p := by
  unfold Path.same
  rw [Bool.eq_iff_iff]
  simp only [Bool.and_eq_true, decide_eq_true_eq]
  exact and_congr eq_comm eq_comm

/-- No two pages of a summary are the same. -/
def Summary.Distinct (s : Summary) : Prop := s.pages.Pairwise fun q q' => ¬ Path.same q q'

theorem Summary.Distinct.add {s : Summary} (h : s.Distinct) (page : Path) : (s.add page).Distinct := by
  unfold Summary.Distinct Summary.add
  split_ifs with hany
  · exact h
  · refine List.pairwise_append.2 ⟨h, List.pairwise_singleton _ _, fun q hq q' hq' hsame => hany ?_⟩
    obtain rfl := List.mem_singleton.1 hq'
    exact List.any_eq_true.2 ⟨q, hq, Path.same_comm q q' ▸ hsame⟩

namespace Pipeline

variable {σ : Type} (p : Pipeline σ)

/-- The page of a method. -/
def page (m : Method) : Path := Page.path p.outputDir m.declarationName

/-- What comes back when a completion for a method is asked for. -/
def replyTo (source : σ) (m : Method) : Except CompletionFault String :=
  (p.complete source p.model (Prompt.build p.sample m)).2

/-- The source after completions for methods have been asked for in turn. -/
def sourceAfter (source : σ) (ms : List Method) : σ :=
  ms.foldl (fun s m => (p.complete s p.model (Prompt.build p.sample m)).1) source

/-- The files after fragments have been added to the pages of methods in turn. -/
def filesAfter (files : FileTree) (done : List (Method × String)) : FileTree :=
  done.foldl (fun t q => (Page.append t p.outputDir q.1.declarationName q.2).1) files

variable {p} in
theorem filesAfter_cons {room : Room} {files files' : FileTree} {m : Method} {text : String} {page : Path}
    (h : Page.appendOn room files p.outputDir m.declarationName text = (files', .ok page))
    (done : List (Method × String)) : p.filesAfter files ((m, text) :: done) = p.filesAfter files' done := by
  rw [filesAfter, List.foldl_cons, Page.append, Page.appendOn_fits h rfl]
  rfl

/-- What a step can do: it ends without a completion, it ends at the page, or it adds to the page. -/
theorem step_cases (room : Room) (s : Progress σ) (m : Method) :
    ∃ s' fault, p.step room s m = (s', fault) ∧ s'.source = p.sourceAfter s.source [m] ∧
      ((∃ f, p.replyTo s.source m = .error f ∧ fault = some (.completion f) ∧ s'.files = s.files ∧
          s'.summary = s.summary) ∨
        (∃ text f, p.replyTo s.source m = .ok text ∧ fault = some (.storage f) ∧
          Page.appendOn room s.files p.outputDir m.declarationName text = (s'.files, .error f) ∧
          s'.summary = s.summary) ∨
        ∃ text page, p.replyTo s.source m = .ok text ∧ fault = none ∧
          Page.appendOn room s.files p.outputDir m.declarationName text = (s'.files, .ok page) ∧
          s'.summary = s.summary.add page) := by
  have hsource : p.sourceAfter s.source [m] = (p.complete s.source p.model (Prompt.build p.sample m)).1 := rfl
  rw [step, replyTo, hsource]
  rcases p.complete s.source p.model (Prompt.build p.sample m) with ⟨source, f | text⟩
  · exact ⟨_, _, rfl, rfl, Or.inl ⟨f, rfl, rfl, rfl, rfl⟩⟩
  · dsimp only
    rcases hpage : Page.appendOn room s.files p.outputDir m.declarationName text with ⟨files, f | page⟩
    · exact ⟨_, _, rfl, rfl, Or.inr (Or.inl ⟨text, f, rfl, rfl, hpage, rfl⟩)⟩
    · exact ⟨_, _, rfl, rfl, Or.inr (Or.inr ⟨text, page, rfl, rfl, hpage, rfl⟩)⟩

/-- A run over methods, with the replies that come back in it: `done` are the methods whose fragments were added,
`rest` are the others, of which the first one failed. -/
structure Traced (disk : Disk) (reply : Nat → Except CompletionFault String) (s : Progress σ) (ms : List Method)
    (done : List (Method × String)) (rest : List Method) (r : Progress σ × Option RenderFault) : Prop where
  methods : ms = done.map Prod.fst ++ rest
  /-- Every fragment came back as the next reply, and its page could be written. -/
  added : ∀ before m text after, done = before ++ (m, text) :: after → reply before.length = .ok text ∧
    (Page.appendOn (disk before.length) (p.filesAfter s.files before) p.outputDir m.declarationName text).2 =
      .ok (p.page m)
  /-- The run ends with the methods, or with the fault of the next one. -/
  ended : match rest with
    | [] => r.2 = none ∧ r.1.files = p.filesAfter s.files done
    | m :: _ => (∃ f, reply done.length = .error f ∧ r.2 = some (.completion f) ∧
          r.1.files = p.filesAfter s.files done) ∨
        ∃ text f, reply done.length = .ok text ∧ r.2 = some (.storage f) ∧
          Page.appendOn (disk done.length) (p.filesAfter s.files done) p.outputDir m.declarationName text =
            (r.1.files, .error f)
  summary : r.1.summary = (done.map fun q => p.page q.1).foldl Summary.add s.summary

variable {p} {disk : Disk} {reply : Nat → Except CompletionFault String} {s s' : Progress σ}

/-- A method that was added, before a run. -/
theorem Traced.cons {m : Method} {ms rest : List Method} {text : String} {done : List (Method × String)}
    {r : Progress σ × Option RenderFault} (hreply : reply 0 = .ok text)
    (hpage : Page.appendOn (disk 0) s.files p.outputDir m.declarationName text = (s'.files, .ok (p.page m)))
    (hsummary : s'.summary = s.summary.add (p.page m))
    (h : p.Traced (fun i => disk (i + 1)) (fun i => reply (i + 1)) s' ms done rest r) :
    p.Traced disk reply s (m :: ms) ((m, text) :: done) rest r := by
  constructor
  case methods => rw [h.methods, List.map_cons, List.cons_append]
  case added =>
    intro before m' text' after heq
    cases before with
    | nil =>
      obtain ⟨hq, -⟩ := List.cons.inj heq
      obtain ⟨rfl, rfl⟩ := Prod.mk.inj hq
      exact ⟨hreply, congrArg Prod.snd hpage⟩
    | cons q before =>
      obtain ⟨rfl, hdone⟩ := List.cons.inj heq
      rw [filesAfter_cons hpage]
      exact h.added before m' text' after hdone
  case ended =>
    have hended := h.ended
    rw [filesAfter_cons hpage]
    cases rest with
    | nil => exact hended
    | cons m' rest => exact hended
  case summary => rw [h.summary, hsummary, List.map_cons, List.foldl_cons]

/-- Fragments that were all added are in their files, in their order. -/
theorem contentAt_filesAfter {files : FileTree} {done : List (Method × String)}
    (h : ∀ before m text after, done = before ++ (m, text) :: after → ∃ room,
      (Page.appendOn room (p.filesAfter files before) p.outputDir m.declarationName text).2 = .ok (p.page m)) :
    (p.filesAfter files done).here = files.here ∧ ∀ l, (p.filesAfter files done).contentAt l =
      extended (files.contentAt l) (Page.additionsTo files p.outputDir l done) := by
  induction done generalizing files with
  | nil => exact ⟨rfl, fun _ => rfl⟩
  | cons q done ih =>
    obtain ⟨m, text⟩ := q
    obtain ⟨room, hfirst⟩ := h [] m text done rfl
    obtain ⟨files', hpage⟩ : ∃ files', Page.appendOn room files p.outputDir m.declarationName text =
      (files', .ok (p.page m)) := ⟨_, Prod.ext rfl hfirst⟩
    obtain ⟨-, hhere, hcontents⟩ := Page.appendOn_eq_ok hpage
    have hlater : ∀ before m' text' after, done = before ++ (m', text') :: after → ∃ room,
        (Page.appendOn room (p.filesAfter files' before) p.outputDir m'.declarationName text').2 =
          .ok (p.page m') := by
      intro before m' text' after heq
      have hnext := h ((m, text) :: before) m' text' after (by rw [heq, List.cons_append])
      rwa [filesAfter_cons hpage] at hnext
    obtain ⟨hhere', hcontents'⟩ := ih hlater
    rw [filesAfter_cons hpage]
    refine ⟨hhere'.trans hhere, fun l => ?_⟩
    rw [hcontents' l, hcontents l, Page.additionsTo_congr hhere, Page.additionsTo_cons]
    by_cases hl : files.written (Page.path p.outputDir m.declarationName) = l
    · rw [if_pos hl, if_pos hl.symm, extended_cons]
    · rw [if_neg hl, if_neg (Ne.symm hl)]

section Contents

variable {ms rest : List Method} {done : List (Method × String)} {r : Progress σ × Option RenderFault}
  (h : p.Traced disk reply s ms done rest r)

include h

theorem Traced.filesAfter : (p.filesAfter s.files done).here = s.files.here ∧
    ∀ l, (p.filesAfter s.files done).contentAt l =
      extended (s.files.contentAt l) (Page.additionsTo s.files p.outputDir l done) :=
  contentAt_filesAfter fun before m text after heq => ⟨_, (h.added before m text after heq).2⟩

/-- Unless a write has stopped, every file holds what was added to it and nothing else. -/
theorem Traced.contents (hwhole : ∀ f, r.2 = some (.storage f) → f.fault.isStop = false) (l : Location) :
    r.1.files.contentAt l = extended (s.files.contentAt l) (Page.additionsTo s.files p.outputDir l done) := by
  have hended := h.ended
  rw [← h.filesAfter.2 l]
  cases rest with
  | nil => rw [hended.2]
  | cons m rest =>
    obtain ⟨f, -, -, hfiles⟩ | ⟨text, f, -, hf, hpage⟩ := hended
    · rw [hfiles]
    · exact (Page.appendOn_eq_error hpage (hwhole f hf)).contentAt l

/-- If a write has stopped, it is that of the next method, and behind what was added its page has a first part of the
fragment. -/
theorem Traced.stopped {f : PathFault} (hf : r.2 = some (.storage f)) (hstop : f.fault.isStop = true) :
    ∃ m after text n cause, rest = m :: after ∧ reply done.length = .ok text ∧ disk done.length = .only n cause ∧
      n < (encode (Page.addition m.declarationName text)).length ∧ f = ⟨p.page m, .unwritten cause⟩ ∧
      ∀ l, r.1.files.contentAt l = extended (s.files.contentAt l) (Page.additionsTo s.files p.outputDir l done ++
        if s.files.written (p.page m) = l then [(encode (Page.addition m.declarationName text)).take n] else []) := by
  have hended := h.ended
  cases rest with
  | nil => exact absurd (hf.symm.trans hended.1) (by simp)
  | cons m rest =>
    obtain ⟨g, -, hg, -⟩ | ⟨text, g, hreply, hg, hpage⟩ := hended
    · exact absurd (hf.symm.trans hg) (by simp)
    · obtain rfl : f = g := RenderFault.storage.inj (Option.some.inj (hf.symm.trans hg))
      obtain ⟨n, cause, hroom, hn, hfault, -, hcontents⟩ := Page.appendOn_eq_stop hpage hstop
      obtain ⟨hhere, hadded⟩ := h.filesAfter
      refine ⟨m, rest, text, n, cause, rfl, hreply, hroom, hn, hfault, fun l => ?_⟩
      rw [hcontents l, hadded l, FileTree.written_congr hhere, page]
      by_cases hl : s.files.written (Page.path p.outputDir m.declarationName) = l
      · rw [if_pos hl, if_pos hl.symm, extended_concat]
      · rw [if_neg hl, if_neg (Ne.symm hl), List.append_nil]

end Contents

end Pipeline

/-- A source of completions that notes what it is asked: its replies by the number of questions before. -/
structure Script where
  reply : Nat → Except CompletionFault String
  asked : List (Model × String)

namespace Script

/-- Asks a script. -/
def complete (s : Script) (m : Model) (prompt : String) : Script × Except CompletionFault String :=
  ({ s with asked := s.asked ++ [(m, prompt)] }, s.reply s.asked.length)

/-- The pipeline of a script. -/
def pipeline (m : Model) (sample : String) (outputDir : Path) (askLog : List LogLine) : Pipeline Script :=
  ⟨m, sample, outputDir, complete, askLog⟩

variable (m : Model) (sample : String) (outputDir : Path) (askLog : List LogLine)

theorem sourceAfter_pipeline (s : Script) (ms : List Method) :
    (pipeline m sample outputDir askLog).sourceAfter s ms =
      { s with asked := s.asked ++ ms.map fun x => (m, Prompt.build sample x) } := by
  induction ms generalizing s with
  | nil => simp [Pipeline.sourceAfter]
  | cons x ms ih =>
    rw [Pipeline.sourceAfter, List.foldl_cons]
    exact (ih _).trans (by simp [complete, pipeline])

end Script

end SignatureDocs
