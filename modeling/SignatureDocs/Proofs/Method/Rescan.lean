import SignatureDocs.Proofs.Method.Trivia

/-!
The comment of a member, read as the text before a member again. Its comments stand one to a line, so each of them
but the last ends where it ended before. The last one may have lost blanks at its end, or gets some that are added
behind it, but these are dropped when the text is trimmed.
-/
namespace SignatureDocs

open SignatureDocs.Text

/-- The comment of a member before which the given text stands. -/
def commentOf (trivia : List Char) : String := leadingComment trivia ⟨0, byteLength trivia⟩

theorem commentOf_eq (trivia : List Char) : commentOf trivia = String.ofList (commentText trivia) := by
  have h := leadingComment_between [] trivia []
  rwa [List.append_nil, byteLength_nil, Nat.zero_add] at h

theorem rdropWhile_append_of_solid {xs : List Char} (h : xs.rdropWhile isBlank = xs) (ys : List Char) :
    (xs ++ ys).rdropWhile isBlank = xs ++ ys.rdropWhile isBlank := by
  by_cases hys : ∃ c ∈ ys, isBlank c = false
  · exact rdropWhile_append_of_mem hys
  · have hblank : ∀ c ∈ ys, isBlank c = true := by simpa using hys
    rw [List.rdropWhile_eq_nil_iff.2 hblank, List.append_nil, List.rdropWhile, List.reverse_append,
      List.dropWhile_append_of_pos (by simpa using hblank)]
    exact h

/-- Blanks behind a text do not close a block comment. -/
theorem not_blockClose_append_blanks {xs ys : List Char} (h : ¬ blockClose <:+: xs) (hys : ∀ c ∈ ys, isBlank c = true) :
    ¬ blockClose <:+: xs ++ ys := by
  rintro ⟨before, after, heq⟩
  rcases List.append_eq_append_iff.1 heq with ⟨zs, hxs, -⟩ | ⟨zs, hbefore, hzs⟩
  · exact h ⟨before, zs, hxs.symm⟩
  · -- the slash would be the last of `zs`, which is a part of the blanks
    rcases List.eq_nil_or_concat zs with rfl | ⟨zs, c, rfl⟩
    · rw [List.append_nil] at hbefore
      exact h ⟨before, [], by rw [List.append_nil, hbefore]⟩
    · have hc : c = '/' := by
        have hlast := congrArg List.getLast? hbefore
        simpa [blockClose, eq_comm] using hlast
      have hblank := hys c (by simp [hzs])
      rw [hc] at hblank
      cases hblank

/-- A comment ends at the end of its line, whatever follows. -/
def EndsWithLine (x : List Char) : Prop := ∀ cs, comments (x ++ '\n' :: cs) = x :: comments cs

/-- A comment without the blanks at its end is found alone, together with some of the blanks that are behind it. -/
def EndsWithText (x : List Char) : Prop := ∀ ys, (∀ c ∈ ys, isBlank c = true) →
  ∃ zs, (∀ c ∈ zs, isBlank c = true) ∧ comments (x.rdropWhile isBlank ++ ys) = [x.rdropWhile isBlank ++ zs]

/-- All comments but the last end with a line, and the last one with the text. -/
def Rereadable : List (List Char) → Prop
  | [] => True
  | [x] => EndsWithText x
  | x :: xs => EndsWithLine x ∧ Rereadable xs

namespace TriviaItem

variable {i : TriviaItem} {x rest : List Char}

theorem comments_text (hx : i.comment? = some x) (h : i.EndsBefore rest) :
    comments (x ++ rest) = x :: comments rest := by
  have hread := triviaComment_text hx h
  obtain ⟨tail, rfl⟩ := eq_slash_of_comment? hx
  exact comments_of_some hread

theorem endsWithLine (hx : i.comment? = some x) (h : i.EndsBefore rest) (hrest : rest ≠ []) : EndsWithLine x := by
  intro cs
  have hline : i.EndsBefore ('\n' :: cs) := by
    cases i with
    | blank c => cases hx
    | line body => exact ⟨h.1, by simp⟩
    | block body => exact h
    | openBlock body => exact absurd h.2 hrest
  rw [comments_text hx hline, comments_blank rfl]

theorem endsWithText (hx : i.comment? = some x) (h : i.EndsBefore rest) : EndsWithText x := by
  intro ys hys
  have hnone {zs : List Char} (hzs : ∀ c ∈ zs, isBlank c = true) : comments zs = [] := by
    rw [← List.append_nil zs, comments_blanks hzs]
    rfl
  cases i with
  | blank c => cases hx
  | line body =>
    obtain rfl := Option.some.inj hx
    have hsolid : ['/', '/'].rdropWhile isBlank = ['/', '/'] := by decide
    have hdrop : (line body).text.rdropWhile isBlank = (line (body.rdropWhile isBlank)).text :=
      rdropWhile_append_of_solid hsolid body
    -- the line takes in the blanks up to the first line end among them
    have hends : (line (body.rdropWhile isBlank ++ ys.takeWhile staysInLine)).EndsBefore
        (ys.dropWhile staysInLine) := by
      refine ⟨fun c hc => ?_, fun c hc => ?_⟩
      · rcases List.mem_append.1 hc with hc | hc
        · exact h.1 c ((List.rdropWhile_prefix isBlank body).subset hc)
        · simpa [staysInLine] using List.mem_takeWhile_imp hc
      · have hhead := List.head?_dropWhile_not staysInLine ys
        rw [Option.mem_def.1 hc] at hhead
        by_cases hfeed : c = '\n'
        · exact Or.inl hfeed
        · exact Or.inr (by simpa [staysInLine, hfeed] using hhead)
    refine ⟨ys.takeWhile staysInLine, fun c hc => hys c ((List.takeWhile_prefix _).subset hc), ?_⟩
    have hrest : comments (ys.dropWhile staysInLine) = [] :=
      hnone fun c hc => hys c ((List.dropWhile_suffix _).subset hc)
    have hread := comments_text rfl hends
    rw [hrest, text, List.cons_append, List.cons_append, List.append_assoc, List.takeWhile_append_dropWhile] at hread
    rw [hdrop]
    exact hread
  | block body =>
    obtain rfl := Option.some.inj hx
    have hdrop : (block body).text.rdropWhile isBlank = (block body).text := by
      rw [text, ← List.cons_append, ← List.cons_append]
      exact rdropWhile_append_of_mem ⟨'/', by decide, by decide⟩
    have hends : (block body).EndsBefore ys := h
    refine ⟨[], by simp, ?_⟩
    rw [hdrop, comments_text rfl hends, hnone hys, List.append_nil]
  | openBlock body =>
    obtain rfl := Option.some.inj hx
    have hsolid : ['/', '*'].rdropWhile isBlank = ['/', '*'] := by decide
    have hdrop : (openBlock body).text.rdropWhile isBlank = (openBlock (body.rdropWhile isBlank)).text :=
      rdropWhile_append_of_solid hsolid body
    have hbody : ¬ blockClose <:+: body.rdropWhile isBlank := fun hinside =>
      h.1 (hinside.trans (List.rdropWhile_prefix isBlank body).isInfix)
    have hends : (openBlock (body.rdropWhile isBlank ++ ys)).EndsBefore [] :=
      ⟨not_blockClose_append_blanks hbody hys, rfl⟩
    refine ⟨ys, hys, ?_⟩
    have hread := comments_text rfl hends
    rw [List.append_nil] at hread
    rw [hdrop]
    exact hread

end TriviaItem

/-- The comments in a text can be read again. -/
theorem Itemized.rereadable {cs rest : List Char} {items : List TriviaItem} (h : Itemized cs items rest) :
    Rereadable (comments cs) := by
  induction h with
  | @done cs hno =>
    rw [(Itemized.done hno).comments_eq]
    trivial
  | @step i items cs rest hi h ih =>
    cases hx : i.comment? with
    | none =>
      obtain ⟨c, rfl⟩ := TriviaItem.eq_blank_of_comment? hx
      have hblank : comments ((TriviaItem.blank c).text ++ cs) = comments cs := comments_blank hi cs
      rwa [hblank]
    | some x =>
      rw [TriviaItem.text_eq_of_comment? hx, TriviaItem.comments_text hx hi]
      cases hcs : comments cs with
      | nil => exact TriviaItem.endsWithText hx hi
      | cons y ys =>
        have hne : cs ≠ [] := by
          rintro rfl
          cases hcs
        exact ⟨TriviaItem.endsWithLine hx hi hne, hcs ▸ ih⟩

/-- Comments one to a line are found again, with some of the blanks behind them. -/
theorem Rereadable.joined_comments {xs : List (List Char)} (h : Rereadable xs) (hne : xs ≠ [])
    (hhead : ∀ x ∈ xs, x.head? = some '/') {ys : List Char} (hys : ∀ c ∈ ys, isBlank c = true) :
    ∃ zs, (∀ c ∈ zs, isBlank c = true) ∧ comments ((joined xs).rdropWhile isBlank ++ ys) ≠ [] ∧
      joined (comments ((joined xs).rdropWhile isBlank ++ ys)) = (joined xs).rdropWhile isBlank ++ zs := by
  induction xs with
  | nil => exact absurd rfl hne
  | cons x xs ih =>
    cases xs with
    | nil =>
      obtain ⟨zs, hzs, hread⟩ := h ys hys
      rw [joined_singleton, hread]
      exact ⟨zs, hzs, by simp, joined_singleton _⟩
    | cons x' xs =>
      obtain ⟨hline, hrest⟩ := h
      have hhead' : ∀ y ∈ x' :: xs, y.head? = some '/' := fun y hy => hhead y (List.mem_cons_of_mem x hy)
      obtain ⟨zs, hzs, hfound, hjoined⟩ := ih hrest (by simp) hhead'
      refine ⟨zs, hzs, ?_⟩
      rw [rdropWhile_joined_cons (by simp) hhead', List.append_assoc, List.cons_append, hline, joined_cons x hfound,
        hjoined]
      exact ⟨by simp, by simp only [List.append_assoc, List.cons_append]⟩

/-- Reading comments again, with blanks around them, gives the same comments. -/
theorem commentText_rescan (cs : List Char) {xs ys : List Char} (hxs : ∀ c ∈ xs, isBlank c = true)
    (hys : ∀ c ∈ ys, isBlank c = true) : commentText (xs ++ commentText cs ++ ys) = commentText cs := by
  obtain ⟨items, rest, h⟩ := exists_itemized cs
  rw [commentText_eq_joined (xs ++ _ ++ _), List.append_assoc, comments_blanks hxs, commentText_eq_joined cs]
  by_cases hnil : comments cs = []
  · have hempty : trim (joined (comments cs)) = [] := by
      rw [hnil]
      rfl
    rw [hempty, List.nil_append, ← List.append_nil ys, comments_blanks hys]
    rfl
  · have hhead := joined_head hnil (comments_head cs)
    have htrim := trim_of_head hhead
    obtain ⟨zs, hzs, -, hjoined⟩ := h.rereadable.joined_comments hnil (comments_head cs) hys
    have hagain : trim ((joined (comments cs)).rdropWhile isBlank) = (joined (comments cs)).rdropWhile isBlank := by
      have hsolid : ((joined (comments cs)).rdropWhile isBlank).head? = some '/' := by
        obtain ⟨tail, htail⟩ := List.head?_eq_some_iff.1 hhead
        have hstart : ['/'].rdropWhile isBlank = ['/'] := by decide
        rw [htail, ← List.singleton_append, rdropWhile_append_of_solid hstart]
        rfl
      rw [trim_of_head hsolid, List.rdropWhile_idempotent]
    rw [htrim, hjoined, trim_append_blanks hzs, hagain]

/-- The comment of a member is its own comment: it is found again if it stands before a member, alone or with blanks
around it. -/
theorem commentOf_rescan (trivia : List Char) {xs ys : List Char} (hxs : ∀ c ∈ xs, isBlank c = true)
    (hys : ∀ c ∈ ys, isBlank c = true) : commentOf (commentOf trivia).toList = commentOf trivia ∧
      commentOf (xs ++ (commentOf trivia).toList ++ ys) = commentOf trivia := by
  have hempty : ∀ c ∈ ([] : List Char), isBlank c = true := by simp
  have hplain := commentText_rescan trivia hempty hempty
  rw [List.nil_append, List.append_nil] at hplain
  simp only [commentOf_eq, String.toList_ofList]
  exact ⟨congrArg String.ofList hplain, congrArg String.ofList (commentText_rescan trivia hxs hys)⟩

/-- A line that loses a blank at its end and gets another one, behind a block comment that seems to close at once. -/
theorem commentOf_rescan_padded :
    commentOf "\n /*/ a */ // b \t\r\n".toList = "/*/ a */\n// b" ∧
      commentOf ("\u2028 ".toList ++ "/*/ a */\n// b".toList ++ " \u0085\n".toList) = "/*/ a */\n// b" := by
  have hcomment : commentOf "\n /*/ a */ // b \t\r\n".toList = "/*/ a */\n// b" := by decide +kernel
  have hbefore : ∀ c ∈ "\u2028 ".toList, isBlank c = true := by simp; decide
  have hafter : ∀ c ∈ " \u0085\n".toList, isBlank c = true := by simp; decide
  have hrescan := (commentOf_rescan "\n /*/ a */ // b \t\r\n".toList hbefore hafter).2
  rw [hcomment] at hrescan
  exact ⟨hcomment, hrescan⟩

end SignatureDocs
