import SignatureDocs.Proofs.Documentation.Pipeline

/-!
What is left out of a fragment when it is added to a page. The line that names the page is meant to stand at the start
of a fragment. Its text is removed where it is found first, wherever that is, so a fragment that has it elsewhere only
loses a piece of its inside.
-/
namespace SignatureDocs

open SignatureDocs.Text

/-- The first place where a text contains another one is between `before` and `after`. -/
structure FirstBetween (marker text before after : List Char) : Prop where
  eq_append : text = before ++ (marker ++ after)
  first : ∀ before' after', text = before' ++ (marker ++ after') → before.length ≤ before'.length

/-- A text without the first place where it contains another one, if there is such a place. -/
inductive Erased (marker text : List Char) : List Char → Prop where
  | absent (h : ¬ marker <:+: text) : Erased marker text text
  | found {before after : List Char} (h : FirstBetween marker text before after) :
      Erased marker text (before ++ after)

theorem FirstBetween.cons {marker text before after : List Char} (h : FirstBetween marker text before after) {c : Char}
    (hc : ¬ marker <+: c :: text) : FirstBetween marker (c :: text) (c :: before) after := by
  refine ⟨congrArg (c :: ·) h.eq_append, fun before' after' heq => ?_⟩
  cases before' with
  | nil => exact absurd ⟨after', heq.symm⟩ hc
  | cons d before' => exact Nat.succ_le_succ (h.first before' after' (List.cons.inj heq).2)

theorem erased_eraseFirst {marker : List Char} (hne : marker ≠ []) (text : List Char) :
    Erased marker text (eraseFirst marker text) := by
  induction text with
  | nil => exact .absent fun hinside => hne (List.infix_nil.1 hinside)
  | cons c text ih =>
    rw [eraseFirst]
    split_ifs with hstarts
    · obtain ⟨after, hafter⟩ := List.isPrefixOf_iff_prefix.1 hstarts
      have hstart : FirstBetween marker (marker ++ after) [] after := ⟨rfl, fun _ _ _ => Nat.zero_le _⟩
      rw [← hafter, List.drop_left]
      exact .found hstart
    · have hc : ¬ marker <+: c :: text := fun h => hstarts (List.isPrefixOf_iff_prefix.2 h)
      generalize hrest : eraseFirst marker text = rest at ih
      cases ih with
      | absent h => exact .absent fun hinside => (List.infix_cons_iff.1 hinside).elim hc h
      | found h => exact .found (h.cons hc)

/-- What a text without a marker keeps of itself, if the marker is only taken off its start. -/
def offStart (marker text : List Char) : List Char :=
  if marker <+: text then text.drop marker.length else text

/-- Erasing takes the marker off the start, or finds it somewhere behind the start. -/
theorem Erased.eq_offStart_or {marker text rest : List Char} (h : Erased marker text rest) :
    (rest = offStart marker text ∧ (marker <+: text ∨ ¬ marker <:+: text)) ∨
      ∃ before after, before ≠ [] ∧ text = before ++ (marker ++ after) ∧ rest = before ++ after ∧
        offStart marker text = text ∧ ¬ (marker <+: text ∨ ¬ marker <:+: text) := by
  cases h with
  | absent h =>
    refine Or.inl ⟨?_, Or.inr h⟩
    rw [offStart, if_neg fun hstarts => h hstarts.isInfix]
  | @found before after h =>
    cases before with
    | nil =>
      have hstarts : marker <+: text := ⟨after, h.eq_append.symm⟩
      refine Or.inl ⟨?_, Or.inl hstarts⟩
      rw [offStart, if_pos hstarts, h.eq_append, List.nil_append, List.nil_append, List.drop_left]
    | cons c before =>
      have hno : ¬ marker <+: text := by
        rintro ⟨after', heq⟩
        have hle := h.first [] after' heq.symm
        simp at hle
      have hinside : marker <:+: text := ⟨c :: before, after, by rw [h.eq_append, List.append_assoc]⟩
      refine Or.inr ⟨c :: before, after, List.cons_ne_nil _ _, h.eq_append, rfl, ?_, ?_⟩
      · rw [offStart, if_neg hno]
      · rintro (hstarts | habsent)
        · exact hno hstarts
        · exact habsent hinside

theorem encode_append (xs ys : List Char) : encode (xs ++ ys) = encode xs ++ encode ys := List.flatMap_append

theorem encode_ne_nil {cs : List Char} (h : cs ≠ []) : encode cs ≠ [] := by
  obtain ⟨c, cs, rfl⟩ := List.exists_cons_of_ne_nil h
  rw [encode, List.flatMap_cons]
  apply List.append_ne_nil_of_left_ne_nil
  unfold encodeChar
  dsimp only
  split_ifs <;> exact List.cons_ne_nil _ _

namespace Page

theorem marker_ne_nil (name : String) : marker name ≠ [] := by
  unfold marker
  simp

/-- A fragment that is added to a page loses the first place where it has the line that names the page, wherever this
is. So it loses a line at its start, or nothing, exactly if it starts with that line or does not have it at all. -/
theorem append_erased {room : Room} {t t' : FileTree} {dir p : Path} {name fragment : String}
    (h : appendOn room t dir name fragment = (t', .ok p)) :
    (∃ text, Erased (marker name) fragment.toList text ∧ t'.contentAt (t.written p) =
        some ((t.contentAt (t.written p)).getD [] ++ encode (text ++ ['\n', '\n']))) ∧
      (t'.contentAt (t.written p) = some ((t.contentAt (t.written p)).getD [] ++
          encode (offStart (marker name) fragment.toList ++ ['\n', '\n'])) ↔
        marker name <+: fragment.toList ∨ ¬ marker name <:+: fragment.toList) := by
  obtain ⟨rfl, -, hcontents⟩ := appendOn_eq_ok h
  have hcontent := hcontents (t.written (path dir name))
  rw [if_pos rfl, addition] at hcontent
  have herased := erased_eraseFirst (marker_ne_nil name) fragment.toList
  refine ⟨⟨_, herased, hcontent⟩, ?_⟩
  rw [hcontent, Option.some.injEq, List.append_cancel_left_eq]
  rcases herased.eq_offStart_or with ⟨heq, hwhere⟩ | ⟨before, after, -, htext, hrest, hkept, hwhere⟩
  · rw [heq]
    exact iff_of_true rfl hwhere
  · -- the fragment should stay as it is, and has become shorter
    refine iff_of_false (fun heq => ?_) hwhere
    rw [hrest, hkept, htext] at heq
    have hlength := congrArg List.length heq
    have hpos := List.length_pos_iff.2 (encode_ne_nil (marker_ne_nil name))
    simp only [encode_append, List.length_append] at hlength
    omega

/-- The text of the line is removed from the middle of a sentence. -/
theorem append_erased_sentence :
    ∃ t', appendOn .enough ⟨[], []⟩ "docs" "Éa" "See filename: éa.md\nand more." = (t', .ok "docs/Éa.md") ∧
      ¬ t'.contentAt ["docs", "Éa.md"] = some (encode "See filename: éa.md\nand more.\n\n".toList) := by
  have hok : (appendOn .enough ⟨[], []⟩ "docs" "Éa" "See filename: éa.md\nand more.").2 = .ok "docs/Éa.md" := by
    decide +kernel
  have hno : ¬ (marker "Éa" <+: "See filename: éa.md\nand more.".toList ∨
      ¬ marker "Éa" <:+: "See filename: éa.md\nand more.".toList) := by decide +kernel
  have hkept : offStart (marker "Éa") "See filename: éa.md\nand more.".toList ++ ['\n', '\n'] =
      "See filename: éa.md\nand more.\n\n".toList := by decide +kernel
  refine ⟨_, Prod.ext rfl hok, fun hcontent => hno ((append_erased (Prod.ext rfl hok)).2.1 ?_)⟩
  rw [hkept]
  exact hcontent

/-- A line that names the page is removed although it is not the first line of its fragment. -/
theorem append_second_line :
    (append ⟨[], []⟩ "docs" "Player" "## Kill\nfilename: player.md\n").1.contentAt ["docs", "Player.md"] =
        some (encode "## Kill\n\n\n".toList) ∧
      offStart (marker "Player") "## Kill\nfilename: player.md\n".toList = "## Kill\nfilename: player.md\n".toList := by
  decide +kernel

end Page

end SignatureDocs
