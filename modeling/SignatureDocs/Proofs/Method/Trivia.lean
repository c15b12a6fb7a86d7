import SignatureDocs.Proofs.Method.Comment

/-!
A grammar for the text before a member. Such a text is cut into items, which are single blanks, line comments and
block comments, and a rest that starts with no item. There is one way to do so, and the scan for comments finds the
comments among the items at their places.
-/
namespace SignatureDocs

open SignatureDocs.Text SignatureDocs.Grammar Reader

/-- What closes a block comment. -/
def blockClose : List Char := ['*', '/']

/-- A piece of the text before a member. The bodies of comments are without their marks. -/
inductive TriviaItem where
  | blank (c : Char)
  | line (body : List Char)
  | block (body : List Char)
  /-- A block comment that is not closed. -/
  | openBlock (body : List Char)
deriving DecidableEq, Repr

namespace TriviaItem

def text : TriviaItem → List Char
  | blank c => [c]
  | line body => '/' :: '/' :: body
  | block body => '/' :: '*' :: (body ++ blockClose)
  | openBlock body => '/' :: '*' :: body

/-- The comment that an item is. -/
def comment? : TriviaItem → Option (List Char)
  | blank _ => none
  | i => some i.text

/-- An item is right and ends where the given text begins. A line comment goes on to a line feed or a carriage
return, a block comment to the first place that closes it, and one that is not closed to the end. -/
def EndsBefore : TriviaItem → List Char → Prop
  | blank c, _ => isBlank c = true
  | line body, rest => (∀ c ∈ body, c ≠ '\n' ∧ c ≠ '\r') ∧ ∀ c ∈ rest.head?, c = '\n' ∨ c = '\r'
  | block body, _ => ¬ blockClose <:+: body ++ ['*']
  | openBlock body, rest => ¬ blockClose <:+: body ∧ rest = []

end TriviaItem

/-- No item stands at the start of a text. -/
def NoItem (cs : List Char) : Prop := ∀ (i : TriviaItem) (rest : List Char), i.EndsBefore rest → cs ≠ i.text ++ rest

/-- A text is cut into items, as many as there are, and a rest. -/
inductive Itemized : List Char → List TriviaItem → List Char → Prop where
  | done {rest : List Char} (h : NoItem rest) : Itemized rest [] rest
  | step {i : TriviaItem} {items : List TriviaItem} {cs rest : List Char} (hi : i.EndsBefore cs)
      (h : Itemized cs items rest) : Itemized (i.text ++ cs) (i :: items) rest

theorem blockEnd_eq_some {cs x rest : List Char} (h : blockEnd cs = some (x, rest)) :
    ∃ body, x = body ++ blockClose ∧ ¬ blockClose <:+: body ++ ['*'] := by
  fun_induction blockEnd cs generalizing x rest with
  | case1 => cases h
  | case2 cs =>
    obtain ⟨rfl, rfl⟩ := Prod.mk.inj (Option.some.inj h)
    exact ⟨[], rfl, by decide⟩
  | case3 c cs hopen ih =>
    obtain ⟨⟨y, rest'⟩, hy, heq⟩ := Option.map_eq_some_iff.1 h
    obtain ⟨rfl, rfl⟩ := Prod.mk.inj heq
    obtain ⟨body, rfl, hfirst⟩ := ih hy
    refine ⟨c :: body, rfl, fun hinside => ?_⟩
    rw [List.cons_append, List.infix_cons_iff] at hinside
    rcases hinside with hstarts | hinside
    · -- the text would be closed here already
      obtain ⟨rfl, hslash⟩ := List.cons_prefix_cons.1 hstarts
      cases body with
      | nil => simp at hslash
      | cons d body =>
        obtain ⟨rfl, -⟩ := List.cons_prefix_cons.1 hslash
        exact hopen (body ++ blockClose ++ rest') rfl (blockEnd_eq_append hy)
    · exact hfirst hinside

theorem blockEnd_blockClose {body : List Char} (h : ¬ blockClose <:+: body ++ ['*']) (rest : List Char) :
    blockEnd (body ++ blockClose ++ rest) = some (body ++ blockClose, rest) := by
  induction body with
  | nil => rfl
  | cons c body ih =>
    rw [List.cons_append, List.infix_cons_iff, not_or] at h
    have hopen : ∀ tail, c = '*' → body ++ blockClose ++ rest = '/' :: tail → False := by
      rintro tail rfl htail
      cases body with
      | nil => simp [blockClose] at htail
      | cons d body =>
        obtain ⟨rfl, -⟩ := List.cons.inj htail
        exact h.1 ⟨body ++ ['*'], rfl⟩
    rw [List.cons_append, List.cons_append, blockEnd.eq_3 _ _ hopen, ih h.2]
    rfl

theorem blockEnd_eq_none_iff {cs : List Char} : blockEnd cs = none ↔ ¬ blockClose <:+: cs := by
  constructor
  · intro h
    fun_induction blockEnd cs with
    | case1 => decide
    | case2 cs => cases h
    | case3 c cs hopen ih =>
      rw [List.infix_cons_iff, not_or]
      refine ⟨?_, ih (Option.map_eq_none_iff.1 h)⟩
      rintro ⟨tail, htail⟩
      obtain ⟨rfl, hslash⟩ := List.cons.inj htail
      exact hopen tail rfl hslash.symm
  · intro h
    by_contra hne
    obtain ⟨⟨x, rest⟩, hx⟩ := Option.ne_none_iff_exists'.1 hne
    obtain ⟨body, rfl, -⟩ := blockEnd_eq_some hx
    exact h ⟨body, rest, (blockEnd_eq_append hx).symm⟩

namespace TriviaItem

variable {i j : TriviaItem} {cs x rest : List Char}

theorem text_eq_of_comment? (h : i.comment? = some x) : i.text = x := by
  cases i with
  | blank c => cases h
  | _ => exact Option.some.inj h

theorem eq_blank_of_comment? (h : i.comment? = none) : ∃ c, i = .blank c := by
  cases i with
  | blank c => exact ⟨c, rfl⟩
  | _ => cases h

theorem text_ne_nil (i : TriviaItem) : i.text ≠ [] := by
  cases i <;> exact List.cons_ne_nil _ _

theorem eq_slash_of_comment? (h : i.comment? = some x) : ∃ tail, x = '/' :: tail := by
  obtain rfl := text_eq_of_comment? h
  cases i with
  | blank c => cases h
  | _ => exact ⟨_, rfl⟩

/-- The scan takes an item that is a comment as a whole. -/
theorem triviaComment_text (hx : i.comment? = some x) (h : i.EndsBefore rest) :
    triviaComment (x ++ rest) = some (x, rest) := by
  cases i with
  | blank c => cases hx
  | line body =>
    obtain rfl := Option.some.inj hx
    obtain ⟨hbody, hrest⟩ := h
    have hstays : ∀ c ∈ body, (c != '\n' && c != '\r') = true := fun c hc => by simp [hbody c hc]
    have hhead : rest.takeWhile (fun c => c != '\n' && c != '\r') = [] ∧
        rest.dropWhile (fun c => c != '\n' && c != '\r') = rest := by
      cases rest with
      | nil => exact ⟨rfl, rfl⟩
      | cons c rest => rcases hrest c rfl with rfl | rfl <;> exact ⟨rfl, rfl⟩
    rw [text, List.cons_append, List.cons_append, triviaComment, run, List.takeWhile_append_of_pos hstays,
      List.dropWhile_append_of_pos hstays, hhead.1, hhead.2, List.append_nil]
    rfl
  | block body =>
    obtain rfl := Option.some.inj hx
    rw [text, List.cons_append, List.cons_append, triviaComment, blockEnd_blockClose h rest]
  | openBlock body =>
    obtain rfl := Option.some.inj hx
    obtain ⟨hbody, rfl⟩ := h
    rw [text, List.append_nil, triviaComment, blockEnd_eq_none_iff.2 hbody]

/-- What the scan takes is an item. -/
theorem exists_of_triviaComment (h : triviaComment cs = some (x, rest)) :
    ∃ i : TriviaItem, i.comment? = some x ∧ i.EndsBefore rest := by
  unfold triviaComment at h
  split at h
  · next tail =>
    simp only [run, Option.map_some, Option.some.injEq, Prod.mk.injEq] at h
    obtain ⟨rfl, rfl⟩ := h
    refine ⟨.line (tail.takeWhile fun c => c != '\n' && c != '\r'), rfl, fun c hc => ?_, fun c hc => ?_⟩
    · simpa using List.mem_takeWhile_imp hc
    · have hhead := List.head?_dropWhile_not (fun c => c != '\n' && c != '\r') tail
      rw [Option.mem_def.1 hc] at hhead
      by_cases hfeed : c = '\n'
      · exact Or.inl hfeed
      · exact Or.inr (by simpa [hfeed] using hhead)
  · next tail =>
    split at h
    · next z rest' hz =>
      obtain ⟨rfl, rfl⟩ := Prod.mk.inj (Option.some.inj h)
      obtain ⟨body, rfl, hfirst⟩ := blockEnd_eq_some hz
      exact ⟨.block body, rfl, hfirst⟩
    · next hz =>
      obtain ⟨rfl, rfl⟩ := Prod.mk.inj (Option.some.inj h)
      exact ⟨.openBlock tail, rfl, blockEnd_eq_none_iff.1 hz, rfl⟩
  · cases h

theorem triviaComment_blank {c : Char} (h : isBlank c = true) (cs : List Char) : triviaComment (c :: cs) = none := by
  apply triviaComment_eq_none
  rintro rfl
  cases h

/-- Items with one text are one item. -/
theorem eq_of_text (h : i.EndsBefore rest) {rest' : List Char} (h' : j.EndsBefore rest') (htext : i.text = j.text) :
    i = j := by
  -- a block comment that is closed has its mark in it, one that is not has none
  have hclosed (body : List Char) {body' : List Char} (hopen : ¬ blockClose <:+: body') :
      body ++ blockClose ≠ body' := by
    rintro rfl
    exact hopen (List.suffix_append _ _).isInfix
  cases i with
  | blank c => cases j <;> simp_all [text]
  | line body => cases j <;> simp_all [text]
  | block body =>
    cases j with
    | openBlock body' => exact absurd (by simpa [text] using htext) (hclosed body h'.1)
    | _ => simp_all [text]
  | openBlock body =>
    cases j with
    | block body' => exact absurd (by simpa [text] using htext.symm) (hclosed body' h.1)
    | _ => simp_all [text]

/-- The item at the start of a text is determined by the text. -/
theorem unique {rest' : List Char} (h : i.EndsBefore rest) (h' : j.EndsBefore rest')
    (heq : i.text ++ rest = j.text ++ rest') : i = j ∧ rest = rest' := by
  cases hx : i.comment? with
  | none =>
    obtain ⟨c, rfl⟩ := eq_blank_of_comment? hx
    cases hy : j.comment? with
    | none =>
      obtain ⟨d, rfl⟩ := eq_blank_of_comment? hy
      obtain ⟨rfl, rfl⟩ := List.cons.inj heq
      exact ⟨rfl, rfl⟩
    | some y =>
      have hread := triviaComment_text hy h'
      rw [← text_eq_of_comment? hy, ← heq] at hread
      simp [text, triviaComment_blank h] at hread
  | some x =>
    have hread := triviaComment_text hx h
    rw [← text_eq_of_comment? hx, heq] at hread
    cases hy : j.comment? with
    | none =>
      obtain ⟨d, rfl⟩ := eq_blank_of_comment? hy
      simp [text, triviaComment_blank h'] at hread
    | some y =>
      have hread' := triviaComment_text hy h'
      rw [← text_eq_of_comment? hy, hread] at hread'
      obtain ⟨htext, rfl⟩ := Prod.mk.inj (Option.some.inj hread')
      exact ⟨eq_of_text h h' htext, rfl⟩

end TriviaItem

theorem NoItem.head {cs : List Char} (h : NoItem cs) : ∀ c ∈ cs.head?, isBlank c = false := by
  intro c hc
  by_contra hblank
  obtain ⟨rest, rfl⟩ := List.head?_eq_some_iff.1 hc
  exact h (.blank c) rest (Bool.of_not_eq_false hblank) rfl

theorem NoItem.dropWhile {cs : List Char} (h : NoItem cs) : cs.dropWhile isBlank = cs := by
  cases cs with
  | nil => rfl
  | cons c cs => rw [List.dropWhile_cons_of_neg (by simp [h.head c rfl])]

theorem NoItem.triviaComment {cs : List Char} (h : NoItem cs) : triviaComment cs = none := by
  by_contra hne
  obtain ⟨⟨x, rest⟩, hread⟩ := Option.ne_none_iff_exists'.1 hne
  obtain ⟨i, hi, hends⟩ := TriviaItem.exists_of_triviaComment hread
  apply h i rest hends
  rw [TriviaItem.text_eq_of_comment? hi]
  exact (triviaComment_eq_append hread).1

theorem noItem_of_triviaComment {cs : List Char} (hhead : ∀ c ∈ cs.head?, isBlank c = false)
    (h : triviaComment cs = none) : NoItem cs := by
  rintro i rest hi rfl
  cases hx : i.comment? with
  | none =>
    obtain ⟨c, rfl⟩ := TriviaItem.eq_blank_of_comment? hx
    have hblank : isBlank c = true := hi
    rw [hhead c rfl] at hblank
    cases hblank
  | some x =>
    rw [TriviaItem.text_eq_of_comment? hx, TriviaItem.triviaComment_text hx hi] at h
    cases h

theorem exists_itemized (cs : List Char) : ∃ items rest, Itemized cs items rest := by
  induction hn : cs.length using Nat.strong_induction_on generalizing cs with
  | _ n ih =>
    -- once an item is found, the text behind it is shorter
    have hstep {i : TriviaItem} {rest : List Char} (hi : i.EndsBefore rest) (hcs : cs = i.text ++ rest) :
        ∃ items rest, Itemized cs items rest := by
      have hpos := List.length_pos_iff.2 i.text_ne_nil
      have hlength := congrArg List.length hcs
      rw [List.length_append] at hlength
      obtain ⟨items, rest', h⟩ := ih rest.length (by omega) rest rfl
      exact ⟨i :: items, rest', hcs ▸ .step hi h⟩
    cases hread : triviaComment cs with
    | some q =>
      obtain ⟨i, hi, hends⟩ := TriviaItem.exists_of_triviaComment hread
      apply hstep hends
      rw [TriviaItem.text_eq_of_comment? hi]
      exact (triviaComment_eq_append hread).1
    | none =>
      by_cases hblank : ∃ c ∈ cs.head?, isBlank c = true
      · obtain ⟨c, hc, hblank⟩ := hblank
        obtain ⟨rest, rfl⟩ := List.head?_eq_some_iff.1 hc
        exact hstep (i := .blank c) hblank rfl
      · exact ⟨[], cs, .done (noItem_of_triviaComment (by simpa using hblank) hread)⟩

theorem comments_blank {c : Char} (h : isBlank c = true) (cs : List Char) : comments (c :: cs) = comments cs :=
  comments_blanks (fun _ hd => List.mem_singleton.1 hd ▸ h) cs

namespace Itemized

variable {cs rest : List Char} {items : List TriviaItem}

theorem eq_append (h : Itemized cs items rest) : cs = items.flatMap TriviaItem.text ++ rest := by
  induction h with
  | done => rfl
  | step _ _ ih => rw [List.flatMap_cons, List.append_assoc, ← ih]

theorem unique (h : Itemized cs items rest) {items' : List TriviaItem} {rest' : List Char}
    (h' : Itemized cs items' rest') : items' = items ∧ rest' = rest := by
  induction h generalizing items' rest' with
  | @done cs hno =>
    cases h' with
    | done => exact ⟨rfl, rfl⟩
    | step hi => exact absurd rfl (hno _ _ hi)
  | @step i items cs rest hi _ ih =>
    generalize htext : i.text ++ cs = text at h'
    cases h' with
    | done hno => exact absurd htext.symm (hno i cs hi)
    | step hj h' =>
      obtain ⟨rfl, rfl⟩ := TriviaItem.unique hi hj htext
      obtain ⟨rfl, rfl⟩ := ih h'
      exact ⟨rfl, rfl⟩

/-- The texts that the scan finds are those of the items that are comments. -/
theorem comments_eq (h : Itemized cs items rest) : comments cs = items.filterMap TriviaItem.comment? := by
  induction h with
  | @done cs hno =>
    apply comments_of_none
    rw [hno.dropWhile]
    exact hno.triviaComment
  | @step i items cs rest hi _ ih =>
    cases hx : i.comment? with
    | none =>
      obtain ⟨c, rfl⟩ := TriviaItem.eq_blank_of_comment? hx
      rw [List.filterMap_cons_none hx, ← ih]
      exact comments_blank hi cs
    | some x =>
      rw [List.filterMap_cons_some hx, TriviaItem.text_eq_of_comment? hx, ← ih]
      have hread := TriviaItem.triviaComment_text hx hi
      obtain ⟨tail, rfl⟩ := TriviaItem.eq_slash_of_comment? hx
      exact comments_of_some hread

end Itemized

/-- An offset falls between two characters of a text, or at one of its ends. -/
def IsBoundary (cs : List Char) (n : Nat) : Prop := ∃ xs ys, cs = xs ++ ys ∧ byteLength xs = n

/-- A span is not reversed, stays in the text and cuts no character. -/
structure Text.Span.Within (s : Span) (cs : List Char) : Prop where
  le : s.start ≤ s.stop
  bounded : s.stop ≤ byteLength cs
  start : IsBoundary cs s.start
  stop : IsBoundary cs s.stop

/-- The places of the comments among items that begin at the given offset. -/
def placesFrom : Nat → List TriviaItem → List Span
  | _, [] => []
  | offset, i :: items =>
    let stop := offset + byteLength i.text
    if i.comment?.isSome then ⟨offset, stop⟩ :: placesFrom stop items else placesFrom stop items

/-- Places in a text that are not empty and follow one another. -/
structure Spaced (cs : List Char) (places : List Span) : Prop where
  nonempty : ∀ s ∈ places, s.start < s.stop
  ordered : places.Pairwise fun s s' => s.stop ≤ s'.start
  within : ∀ s ∈ places, s.Within cs

theorem le_start_of_mem_placesFrom {s : Span} {offset : Nat} {items : List TriviaItem}
    (h : s ∈ placesFrom offset items) : offset ≤ s.start := by
  induction items generalizing offset with
  | nil => cases h
  | cons i items ih =>
    have hrest (h : s ∈ placesFrom (offset + byteLength i.text) items) : offset ≤ s.start := by
      have hle := ih h
      omega
    rw [placesFrom] at h
    split_ifs at h
    · rcases List.mem_cons.1 h with rfl | h
      · exact le_rfl
      · exact hrest h
    · exact hrest h

theorem spaced_placesFrom (before : List Char) (items : List TriviaItem) (rest : List Char) :
    Spaced (before ++ (items.flatMap TriviaItem.text ++ rest)) (placesFrom (byteLength before) items) := by
  induction items generalizing before with
  | nil => exact ⟨by simp [placesFrom], .nil, by simp [placesFrom]⟩
  | cons i items ih =>
    have hrest := ih (before ++ i.text)
    have htext : (before ++ i.text) ++ (items.flatMap TriviaItem.text ++ rest) =
        before ++ ((i :: items).flatMap TriviaItem.text ++ rest) := by
      simp only [List.flatMap_cons, List.append_assoc]
    rw [htext, byteLength_append] at hrest
    rw [placesFrom]
    split_ifs
    · have hpos := byteLength_pos i.text_ne_nil
      refine ⟨?_, List.pairwise_cons.2 ⟨fun s hs => le_start_of_mem_placesFrom hs, hrest.ordered⟩, ?_⟩
      · rintro s (_ | ⟨_, hs⟩)
        · exact Nat.lt_add_of_pos_right hpos
        · exact hrest.nonempty s hs
      · rintro s (_ | ⟨_, hs⟩)
        · refine ⟨Nat.le_add_right _ _, ?_, ⟨before, _, rfl, rfl⟩,
            ⟨before ++ i.text, _, htext.symm, byteLength_append _ _⟩⟩
          rw [← htext, byteLength_append, byteLength_append]
          exact Nat.le_add_right _ _
        · exact hrest.within s hs
    · exact hrest

/-- A blank is passed over whatever the budget. -/
theorem commentSpansFrom_blank {c : Char} (hc : isBlank c = true) (budget cs : List Char) (offset : Nat) :
    commentSpansFrom budget offset (c :: cs) = commentSpansFrom budget (offset + c.utf8Size) cs := by
  cases budget with
  | nil => rfl
  | cons b budget =>
    rw [commentSpansFrom, commentSpansFrom, List.dropWhile_cons_of_pos hc, List.takeWhile_cons_of_pos hc]
    cases triviaComment (cs.dropWhile isBlank) with
    | none => rfl
    | some q => simp only [byteLength_cons, Nat.add_assoc]

/-- The scan finds the comments among the items where they stand. -/
theorem Itemized.commentSpansFrom_eq {cs rest : List Char} {items : List TriviaItem} (h : Itemized cs items rest)
    {budget : List Char} (hbudget : cs.length ≤ budget.length) (offset : Nat) :
    commentSpansFrom budget offset cs = placesFrom offset items := by
  induction h generalizing budget offset with
  | @done cs hno =>
    cases budget with
    | nil => rfl
    | cons b budget =>
      rw [commentSpansFrom, hno.dropWhile, hno.triviaComment]
      rfl
  | @step i items cs rest hi _ ih =>
    rw [List.length_append] at hbudget
    rw [placesFrom]
    cases hx : i.comment? with
    | none =>
      obtain ⟨c, rfl⟩ := TriviaItem.eq_blank_of_comment? hx
      have hle : cs.length ≤ budget.length := by omega
      rw [if_neg (by simp), ← ih hle, TriviaItem.text]
      exact commentSpansFrom_blank hi _ _ _
    | some x =>
      have hread := TriviaItem.triviaComment_text hx hi
      have hpos := List.length_pos_iff.2 i.text_ne_nil
      obtain ⟨b, budget, rfl⟩ := List.exists_cons_of_length_pos (l := budget) (by omega)
      rw [List.length_cons] at hbudget
      have hle : cs.length ≤ budget.length := by omega
      rw [if_pos (by simp), ← ih hle, TriviaItem.text_eq_of_comment? hx]
      obtain ⟨tail, rfl⟩ := TriviaItem.eq_slash_of_comment? hx
      -- nothing is blank at the start of a comment
      have hdrop : ('/' :: tail ++ cs).dropWhile isBlank = '/' :: tail ++ cs := rfl
      have htake : ('/' :: tail ++ cs).takeWhile isBlank = [] := rfl
      rw [commentSpansFrom, hdrop, htake, hread]
      rfl

theorem slice?_eq_none {source : List Char} {s : Span} (h : ¬ s.Within source) : slice? source s = none := by
  by_contra hne
  obtain ⟨x, hx⟩ := Option.ne_none_iff_exists'.1 hne
  apply h
  unfold slice? at hx
  split_ifs at hx with hle
  obtain ⟨tail, hdrop, htake⟩ := Option.bind_eq_some_iff.1 hx
  obtain ⟨before, rfl, hbefore⟩ := dropBytes?_eq_some_iff.1 hdrop
  obtain ⟨rest, rfl, hlength⟩ := takeBytes?_eq_some htake
  refine ⟨hle, ?_, ⟨before, x ++ rest, rfl, hbefore⟩, ⟨before ++ x, rest, by rw [List.append_assoc], ?_⟩⟩
  · simp only [byteLength_append]
    omega
  · rw [byteLength_append]
    omega

/-- The comment of a member, given the text before it and what is around that text. -/
theorem leadingComment_between (before trivia after : List Char) :
    leadingComment (before ++ (trivia ++ after)) ⟨byteLength before, byteLength before + byteLength trivia⟩ =
      String.ofList (commentText trivia) := by
  have hstart : dropBytes? (before ++ (trivia ++ after)) (byteLength before) = some (trivia ++ after) :=
    dropBytes?_eq_some_iff.2 ⟨before, rfl, rfl⟩
  rw [leadingComment, slice, slice?_eq_some hstart, Option.getD_some]

/-- What is found in a text before a member that is made of the given items. -/
structure Recovered (trivia : List Char) (items : List TriviaItem) : Prop where
  /-- The comments are found where they stand among the items. -/
  places : commentSpans trivia = placesFrom 0 items
  spaced : Spaced trivia (commentSpans trivia)
  /-- Wherever the text stands in a source, it gives the texts of its comments, one to a line and trimmed. -/
  comment : ∀ before after,
    leadingComment (before ++ (trivia ++ after)) ⟨byteLength before, byteLength before + byteLength trivia⟩ =
      String.ofList (trim (joined (items.filterMap TriviaItem.comment?)))
  /-- It gives something exactly if one of the items is a comment. -/
  nonempty : ∀ before after,
    leadingComment (before ++ (trivia ++ after)) ⟨byteLength before, byteLength before + byteLength trivia⟩ ≠ "" ↔
      ∃ i ∈ items, i.comment? ≠ none

theorem Itemized.recovered {cs rest : List Char} {items : List TriviaItem} (h : Itemized cs items rest) :
    Recovered cs items := by
  have hplaces : commentSpans cs = placesFrom 0 items := h.commentSpansFrom_eq le_rfl 0
  refine ⟨hplaces, ?_, fun before after => ?_, fun before after => ?_⟩
  · rw [hplaces, h.eq_append]
    exact spaced_placesFrom [] items rest
  · rw [leadingComment_between, commentText_eq_joined, h.comments_eq]
  · rw [leadingComment_between, ne_eq, String.ofList_eq_empty_iff, commentText_eq_nil_iff, h.comments_eq,
      List.filterMap_eq_nil_iff]
    simp only [not_forall, exists_prop, ne_eq]

/-- Every text before a member is made of items in one way, and its comments are recovered from them. A span that is
reversed, leaves the source or cuts a character has no comment. -/
theorem leadingComment_recovered :
    (∀ trivia, ∃ items rest, Itemized trivia items rest ∧
      (∀ items' rest', Itemized trivia items' rest' → items' = items ∧ rest' = rest) ∧ Recovered trivia items) ∧
      ∀ (source : List Char) (s : Span), ¬ s.Within source → leadingComment source s = "" := by
  constructor
  · intro trivia
    obtain ⟨items, rest, h⟩ := exists_itemized trivia
    exact ⟨items, rest, h, fun _ _ h' => h.unique h', h.recovered⟩
  · intro source s hs
    rw [leadingComment, slice, slice?_eq_none hs]
    rfl

end SignatureDocs
