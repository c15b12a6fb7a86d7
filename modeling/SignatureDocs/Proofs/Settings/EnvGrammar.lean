import SignatureDocs.Proofs.Text.Blank
import SignatureDocs.Settings.EnvValue

/-!
A grammar for values in the environment, and the reader of such values against it. A value is read from the start of a
text, so the grammar says what follows it too. The reader counts how deep lists and tables are nested and how many
items they have; both counts are long enough for every text.
-/
namespace SignatureDocs.EnvValue

open SignatureDocs.Text

/-- Escapes of one letter, with the characters that they stand for. -/
def escapeLetters : List (Char × Char) :=
  [('b', '\x08'), ('t', '\t'), ('n', '\n'), ('f', '\x0c'), ('r', '\r'), ('"', '"'), ('\\', '\\')]

/-- An escape without its backslash, and the character that it stands for. -/
inductive Escape : List Char → Char → Prop where
  | letter {c d : Char} (h : (c, d) ∈ escapeLetters) : Escape [c] d
  | short {digits : List Char} {d : Char} (hlength : digits.length = 4) (h : Toml.codePoint? digits = some d) :
      Escape ('u' :: digits) d
  | long {digits : List Char} {d : Char} (hlength : digits.length = 8) (h : Toml.codePoint? digits = some d) :
      Escape ('U' :: digits) d

/-- The inside of a string in quotes, and the text that it stands for. -/
inductive Quoted : List Char → List Char → Prop where
  | nil : Quoted [] []
  | plain {c : Char} {body s : List Char} (hc : Toml.isPlain c = true) (hquote : c ≠ '"') (hslash : c ≠ '\\')
      (h : Quoted body s) : Quoted (c :: body) (c :: s)
  | escape {e : List Char} {d : Char} {body s : List Char} (he : Escape e d) (h : Quoted body s) :
      Quoted ('\\' :: (e ++ body)) (d :: s)

/-- A key at the start of a text, and what follows it. -/
inductive Key : List Char → String → List Char → Prop where
  | quoted {body s : List Char} (h : Quoted body s) (rest : List Char) :
      Key ('"' :: (body ++ '"' :: rest)) (String.ofList s) rest
  | bare {k rest : List Char} (hne : k ≠ []) (hk : ∀ c ∈ k, Toml.isBareKey c = true)
      (hrest : ∀ c ∈ rest.head?, Toml.isBareKey c = false) : Key (k ++ rest) (String.ofList k) rest

theorem escape_eq_some {cs rest : List Char} {d : Char} (h : Toml.escape cs = some (d, rest)) :
    ∃ e, Escape e d ∧ cs = e ++ rest := by
  have hdigits {tail : List Char} {n : Nat} (hlength : ¬ tail.length < n)
      (h : (Toml.codePoint? (tail.take n)).map (fun c => (c, tail.drop n)) = some (d, rest)) :
      (tail.take n).length = n ∧ Toml.codePoint? (tail.take n) = some d ∧ tail = tail.take n ++ rest := by
    obtain ⟨c, hc, heq⟩ := Option.map_eq_some_iff.1 h
    obtain ⟨rfl, rfl⟩ := Prod.mk.inj heq
    refine ⟨?_, hc, (List.take_append_drop n tail).symm⟩
    rw [List.length_take]
    omega
  unfold Toml.escape at h
  split at h
  case h_8 tail =>
    split_ifs at h with hlength
    obtain ⟨htake, hcode, htail⟩ := hdigits hlength h
    exact ⟨_, .short htake hcode, congrArg ('u' :: ·) htail⟩
  case h_9 tail =>
    split_ifs at h with hlength
    obtain ⟨htake, hcode, htail⟩ := hdigits hlength h
    exact ⟨_, .long htake hcode, congrArg ('U' :: ·) htail⟩
  case h_10 => cases h
  all_goals
    obtain ⟨rfl, rfl⟩ := Prod.mk.inj (Option.some.inj h)
    exact ⟨_, .letter (by decide), rfl⟩

theorem Escape.read {e : List Char} {d : Char} (h : Escape e d) (rest : List Char) :
    Toml.escape (e ++ rest) = some (d, rest) := by
  have hdigits {digits : List Char} {n : Nat} (hlength : digits.length = n) :
      ¬ (digits ++ rest).length < n ∧ (digits ++ rest).take n = digits ∧ (digits ++ rest).drop n = rest := by
    subst hlength
    exact ⟨by simp, List.take_left, List.drop_left⟩
  cases h with
  | letter h =>
    simp only [escapeLetters, List.mem_cons, Prod.mk.injEq, List.not_mem_nil, or_false] at h
    rcases h with ⟨rfl, rfl⟩ | ⟨rfl, rfl⟩ | ⟨rfl, rfl⟩ | ⟨rfl, rfl⟩ | ⟨rfl, rfl⟩ | ⟨rfl, rfl⟩ | ⟨rfl, rfl⟩ <;> rfl
  | short hlength h =>
    obtain ⟨hlong, htake, hdrop⟩ := hdigits hlength
    rw [List.cons_append, Toml.escape, if_neg hlong, htake, hdrop, h]
    rfl
  | long hlength h =>
    obtain ⟨hlong, htake, hdrop⟩ := hdigits hlength
    rw [List.cons_append, Toml.escape, if_neg hlong, htake, hdrop, h]
    rfl

theorem basicTail_eq_some {budget cs s rest : List Char} (h : Toml.basicTail budget cs = some (s, rest)) :
    ∃ body, Quoted body s ∧ cs = body ++ '"' :: rest := by
  fun_induction Toml.basicTail budget cs generalizing s rest with
  | case1 => cases h
  | case2 => cases h
  | case3 b budget cs =>
    obtain ⟨rfl, rfl⟩ := Prod.mk.inj (Option.some.inj h)
    exact ⟨[], .nil, rfl⟩
  | case4 => cases h
  | case5 b budget cs d tail hescape _ ih =>
    obtain ⟨⟨s', rest'⟩, hs, heq⟩ := Option.map_eq_some_iff.1 h
    obtain ⟨rfl, rfl⟩ := Prod.mk.inj heq
    obtain ⟨body, hbody, rfl⟩ := ih hs
    obtain ⟨e, he, rfl⟩ := escape_eq_some hescape
    exact ⟨'\\' :: (e ++ body), .escape he hbody, by rw [List.cons_append, List.append_assoc]⟩
  | case6 b budget c cs hquote hslash hplain ih =>
    obtain ⟨⟨s', rest'⟩, hs, heq⟩ := Option.map_eq_some_iff.1 h
    obtain ⟨rfl, rfl⟩ := Prod.mk.inj heq
    obtain ⟨body, hbody, rfl⟩ := ih hs
    exact ⟨c :: body, .plain hplain hquote hslash hbody, rfl⟩
  | case7 => cases h

theorem Quoted.read {body s : List Char} (h : Quoted body s) (rest : List Char) {budget : List Char}
    (hbudget : body.length < budget.length) :
    Toml.basicTail budget (body ++ '"' :: rest) = some (s, rest) := by
  induction h generalizing budget with
  | nil =>
    obtain ⟨b, budget, rfl⟩ := List.exists_cons_of_length_pos hbudget
    rfl
  | @plain c body s hc hquote hslash _ ih =>
    obtain ⟨b, budget, rfl⟩ := List.exists_cons_of_length_pos (Nat.zero_lt_of_lt hbudget)
    simp only [List.length_cons, Nat.add_lt_add_iff_right] at hbudget
    rw [List.cons_append, Toml.basicTail, if_neg hquote, if_neg hslash, if_pos hc, ih hbudget]
    rfl
  | @escape e d body s he _ ih =>
    obtain ⟨b, budget, rfl⟩ := List.exists_cons_of_length_pos (Nat.zero_lt_of_lt hbudget)
    simp only [List.length_cons, List.length_append, Nat.add_lt_add_iff_right] at hbudget
    have hle : body.length < budget.length := by omega
    rw [List.cons_append, List.append_assoc, Toml.basicTail, if_neg (by decide), if_pos rfl, he.read]
    simp only [ih hle, Option.map_some]

theorem key_eq_some {cs rest : List Char} {k : String} (h : key cs = some (k, rest)) : Key cs k rest := by
  unfold key at h
  split at h
  · obtain ⟨⟨s, rest'⟩, hs, heq⟩ := Option.map_eq_some_iff.1 h
    obtain ⟨rfl, rfl⟩ := Prod.mk.inj heq
    obtain ⟨body, hbody, rfl⟩ := basicTail_eq_some hs
    exact .quoted hbody _
  · split at h
    · cases h
    · next hne =>
      obtain ⟨rfl, rfl⟩ := Prod.mk.inj (Option.some.inj h)
      have hdrop : (cs.takeWhile Toml.isBareKey ++ cs.dropWhile Toml.isBareKey).drop
          (cs.takeWhile Toml.isBareKey).length = cs.dropWhile Toml.isBareKey := List.drop_left
      have hkey : Key (cs.takeWhile Toml.isBareKey ++ cs.dropWhile Toml.isBareKey)
          (String.ofList (cs.takeWhile Toml.isBareKey)) (cs.dropWhile Toml.isBareKey) := by
        refine .bare hne (fun c hc => List.mem_takeWhile_imp hc) fun c hc => ?_
        have hhead := List.head?_dropWhile_not Toml.isBareKey cs
        rw [Option.mem_def.1 hc] at hhead
        exact hhead
      rw [List.takeWhile_append_dropWhile] at hdrop hkey
      rwa [hdrop]

theorem Key.read {cs rest : List Char} {k : String} (h : Key cs k rest) : key cs = some (k, rest) := by
  cases h with
  | @quoted body s h rest =>
    have hbudget : body.length < ('"' :: (body ++ '"' :: rest)).length := by
      simp only [List.length_cons, List.length_append]
      omega
    rw [key, h.read rest hbudget]
    rfl
  | @bare k rest hne hk hrest =>
    have htake : (k ++ rest).takeWhile Toml.isBareKey = k := by
      rw [List.takeWhile_append_of_pos hk]
      cases rest with
      | nil => simp
      | cons c rest => simp [hrest c rfl]
    obtain ⟨c, k, rfl⟩ := List.exists_cons_of_ne_nil hne
    have hquote : c ≠ '"' := by
      rintro rfl
      cases hk '"' List.mem_cons_self
    rw [List.cons_append] at htake ⊢
    rw [key.eq_2 _ (by simpa using hquote), htake]
    simp

/-- Items with commas between them, and the mark that closes them; a comma may stand before the mark. -/
inductive Items {α : Type} (close : Char) (item : List Char → α → List Char → Prop) :
    List Char → List α → List Char → Prop where
  | close (rest : List Char) : Items close item (close :: rest) [] rest
  | last {cs rest : List Char} {a : α} (hopen : cs.head? ≠ some close) (h : item cs a (close :: rest)) :
      Items close item cs [a] rest
  | more {cs mid rest : List Char} {a : α} {as : List α} (hopen : cs.head? ≠ some close) (h : item cs a (',' :: mid))
      (htail : Items close item mid as rest) : Items close item cs (a :: as) rest

/-- A text starts as something else than a word. -/
def Opens (cs : List Char) : Prop :=
  "true".toList <+: cs ∨ "false".toList <+: cs ∨ ∃ c ∈ cs.head?, c = '\x7b' ∨ c = '[' ∨ c = '"' ∨ c = '\x27'

mutual

/-- A value at the start of a text, and what follows it. What starts as nothing else is a word, which goes on to a
separator. -/
inductive Reads : List Char → Value → List Char → Prop where
  | yes (rest : List Char) : Reads ("true".toList ++ rest) (.bool true) rest
  | no (rest : List Char) : Reads ("false".toList ++ rest) (.bool false) rest
  | table {cs rest : List Char} {fields : List (String × Value)} (h : Items '\x7d' Field cs fields rest) :
      Reads ('\x7b' :: cs) (.ofPairs fields) rest
  | list {cs rest : List Char} {values : List Value} (h : Items ']' Inner cs values rest) :
      Reads ('[' :: cs) (.array values) rest
  | quoted {body s : List Char} (h : Quoted body s) (rest : List Char) :
      Reads ('"' :: (body ++ '"' :: rest)) (.text (String.ofList s)) rest
  | char (c : Char) (rest : List Char) : Reads ('\x27' :: c :: '\x27' :: rest) (.char c) rest
  | word {w rest : List Char} (hopen : ¬ Opens (w ++ rest)) (hw : ∀ c ∈ w, isSeparator c = false)
      (hrest : ∀ c ∈ rest.head?, isSeparator c = true) : Reads (w ++ rest) (EnvValue.word (trim w)) rest

/-- A value with gaps around it. -/
inductive Inner : List Char → Value → List Char → Prop where
  | gaps {cs rest : List Char} {v : Value} (h : Reads (skipGap cs) v rest) : Inner cs v (skipGap rest)

/-- A key and its value, with gaps around them. -/
inductive Field : List Char → String × Value → List Char → Prop where
  | pair {cs mid tail rest : List Char} {k : String} {v : Value} (hk : Key (skipGap cs) k mid)
      (heq : skipGap mid = '=' :: tail) (hv : Inner tail v rest) : Field cs (k, v) rest

end

theorem skipGap_suffix (cs : List Char) : skipGap cs <:+ cs := List.dropWhile_suffix _

theorem Key.suffix {cs rest : List Char} {k : String} (h : Key cs k rest) : rest <:+ cs := by
  cases h with
  | @quoted body s _ rest => exact ⟨'"' :: (body ++ ['"']), by simp⟩
  | bare => exact List.suffix_append _ _

theorem Key.tail_suffix {cs mid tail : List Char} {k : String} (h : Key (skipGap cs) k mid)
    (heq : skipGap mid = '=' :: tail) : tail <:+ cs :=
  (List.suffix_cons _ _).trans (heq ▸ (skipGap_suffix mid).trans (h.suffix.trans (skipGap_suffix cs)))

theorem Items.suffix {α : Type} {close : Char} {item : List Char → α → List Char → Prop} {n : Nat}
    (hitem : ∀ {cs a rest}, cs.length ≤ n → item cs a rest → rest <:+ cs) {cs rest : List Char} {as : List α}
    (hle : cs.length ≤ n) (h : Items close item cs as rest) : rest <:+ cs := by
  induction h with
  | close rest => exact List.suffix_cons _ _
  | last _ h => exact (List.suffix_cons _ _).trans (hitem hle h)
  | more _ h _ ih =>
    have hmid := (List.suffix_cons _ _).trans (hitem hle h)
    exact (ih (hmid.length_le.trans hle)).trans hmid

theorem Inner.suffix_of {cs rest : List Char} {v : Value} (h : Inner cs v rest)
    (hreads : ∀ {tail}, Reads (skipGap cs) v tail → tail <:+ skipGap cs) : rest <:+ cs := by
  cases h with
  | gaps h => exact (skipGap_suffix _).trans ((hreads h).trans (skipGap_suffix cs))

/-- What follows a value is the end of the text. -/
theorem Reads.suffix {cs rest : List Char} {v : Value} (h : Reads cs v rest) : rest <:+ cs := by
  induction hn : cs.length using Nat.strong_induction_on generalizing cs v rest with
  | _ n ih =>
    -- values inside a list or a table start behind its first character
    have hinner {cs rest : List Char} {v : Value} (hlt : cs.length < n) (h : Inner cs v rest) : rest <:+ cs :=
      h.suffix_of fun hreads => ih _ ((skipGap_suffix cs).length_le.trans_lt hlt) hreads rfl
    cases h with
    | yes => exact List.suffix_append _ _
    | no => exact List.suffix_append _ _
    | table h =>
      simp only [List.length_cons] at hn
      refine (h.suffix (fun hle hfield => ?_) le_rfl).trans (List.suffix_cons _ _)
      cases hfield with
      | pair hk heq hv =>
        have htail := hk.tail_suffix heq
        have hlength := htail.length_le
        exact (hinner (by omega) hv).trans htail
    | list h =>
      simp only [List.length_cons] at hn
      exact (h.suffix (fun hle hv => hinner (by omega) hv) le_rfl).trans (List.suffix_cons _ _)
    | @quoted body s _ rest => exact ⟨'"' :: (body ++ ['"']), by simp⟩
    | char c rest => exact ⟨['\x27', c, '\x27'], rfl⟩
    | word => exact List.suffix_append _ _

theorem Inner.suffix {cs rest : List Char} {v : Value} (h : Inner cs v rest) : rest <:+ cs :=
  h.suffix_of fun hreads => hreads.suffix

theorem Field.suffix {cs rest : List Char} {q : String × Value} (h : Field cs q rest) : rest <:+ cs := by
  cases h with
  | pair hk heq hv => exact hv.suffix.trans (hk.tail_suffix heq)

theorem collect_eq_some {α : Type} {close : Char} {item : Reader α} {valid : List Char → α → List Char → Prop}
    (hitem : ∀ {cs a rest}, item cs = some (a, rest) → valid cs a rest) {budget cs rest : List Char} {as : List α}
    (h : collect close item budget cs = some (as, rest)) : Items close valid cs as rest := by
  induction budget generalizing cs as rest with
  | nil => cases h
  | cons b budget ih =>
    rw [collect] at h
    split_ifs at h with hclose
    · obtain ⟨tail, rfl⟩ := List.head?_eq_some_iff.1 hclose
      obtain ⟨rfl, rfl⟩ := Prod.mk.inj (Option.some.inj h)
      exact .close _
    · split at h
      · cases h
      · next a mid ha =>
        split at h
        · obtain ⟨⟨as', rest'⟩, htail, heq⟩ := Option.map_eq_some_iff.1 h
          obtain ⟨rfl, rfl⟩ := Prod.mk.inj heq
          exact .more hclose (hitem ha) (ih htail)
        · split_ifs at h with hc
          obtain ⟨rfl, rfl⟩ := Prod.mk.inj (Option.some.inj h)
          exact .last hclose (hc ▸ hitem ha)
        · cases h

theorem pair_eq_some {value : Reader Value} (hvalue : ∀ {cs v rest}, value cs = some (v, rest) → Inner cs v rest)
    {cs rest : List Char} {q : String × Value} (h : pair value cs = some (q, rest)) : Field cs q rest := by
  unfold pair at h
  split at h
  · cases h
  · next k mid hk =>
    split at h
    · next tail htail =>
      obtain ⟨⟨v, rest'⟩, hv, heq⟩ := Option.map_eq_some_iff.1 h
      obtain ⟨rfl, rfl⟩ := Prod.mk.inj heq
      exact .pair (key_eq_some hk) htail (hvalue hv)
    · cases h

theorem reads_word {cs : List Char} (h : ¬ Opens cs) :
    Reads cs (EnvValue.word (trim (cs.takeWhile (!isSeparator ·)))) (cs.dropWhile (!isSeparator ·)) := by
  have hword : Reads (cs.takeWhile (!isSeparator ·) ++ cs.dropWhile (!isSeparator ·))
      (EnvValue.word (trim (cs.takeWhile (!isSeparator ·)))) (cs.dropWhile (!isSeparator ·)) := by
    refine .word ?_ (fun c hc => by simpa using List.mem_takeWhile_imp hc) fun c hc => ?_
    · rwa [List.takeWhile_append_dropWhile]
    · have hhead := List.head?_dropWhile_not (!isSeparator ·) cs
      rw [Option.mem_def.1 hc] at hhead
      simpa using hhead
  rwa [List.takeWhile_append_dropWhile] at hword

theorem core_eq_some {depth : Nat} {cs rest : List Char} {v : Value} (h : core depth cs = some (v, rest)) :
    Reads cs v rest := by
  induction depth generalizing cs v rest with
  | zero => cases h
  | succ depth ih =>
    have hinner {cs rest : List Char} {v : Value}
        (h : (core depth (skipGap cs)).map (fun q => (q.1, skipGap q.2)) = some (v, rest)) : Inner cs v rest := by
      obtain ⟨⟨w, tail⟩, hw, heq⟩ := Option.map_eq_some_iff.1 h
      obtain ⟨rfl, rfl⟩ := Prod.mk.inj heq
      exact .gaps (ih hw)
    rw [core] at h
    dsimp only at h
    split_ifs at h with hyes hno
    · obtain ⟨tail, rfl⟩ := List.isPrefixOf_iff_prefix.1 hyes
      obtain ⟨rfl, rfl⟩ := Prod.mk.inj (Option.some.inj h)
      exact .yes tail
    · obtain ⟨tail, rfl⟩ := List.isPrefixOf_iff_prefix.1 hno
      obtain ⟨rfl, rfl⟩ := Prod.mk.inj (Option.some.inj h)
      exact .no tail
    · split at h
      · obtain ⟨⟨fields, tail⟩, hfields, heq⟩ := Option.map_eq_some_iff.1 h
        obtain ⟨rfl, rfl⟩ := Prod.mk.inj heq
        exact .table (collect_eq_some (pair_eq_some hinner) hfields)
      · obtain ⟨⟨values, tail⟩, hvalues, heq⟩ := Option.map_eq_some_iff.1 h
        obtain ⟨rfl, rfl⟩ := Prod.mk.inj heq
        exact .list (collect_eq_some hinner hvalues)
      · obtain ⟨⟨s, tail⟩, hs, heq⟩ := Option.map_eq_some_iff.1 h
        obtain ⟨rfl, rfl⟩ := Prod.mk.inj heq
        obtain ⟨body, hbody, rfl⟩ := basicTail_eq_some hs
        exact .quoted hbody _
      · split at h
        · obtain ⟨rfl, rfl⟩ := Prod.mk.inj (Option.some.inj h)
          exact .char _ _
        · cases h
      · next hbrace hbracket hquote hmark =>
        obtain ⟨rfl, rfl⟩ := Prod.mk.inj (Option.some.inj h)
        refine reads_word ?_
        rintro (hstarts | hstarts | ⟨c, hc, hopen⟩)
        · exact hyes (List.isPrefixOf_iff_prefix.2 hstarts)
        · exact hno (List.isPrefixOf_iff_prefix.2 hstarts)
        · obtain ⟨tail, rfl⟩ := List.head?_eq_some_iff.1 hc
          rcases hopen with rfl | rfl | rfl | rfl
          · exact hbrace tail rfl
          · exact hbracket tail rfl
          · exact hquote tail rfl
          · exact hmark tail rfl

theorem Items.collect {α : Type} {close : Char} {item : Reader α} {valid : List Char → α → List Char → Prop}
    {depth : Nat} (hclose : close ≠ ',') (hvalid : ∀ {cs a rest}, valid cs a rest → rest <:+ cs)
    (hitem : ∀ {cs a rest}, cs.length < depth + rest.length → valid cs a rest → item cs = some (a, rest))
    {cs rest : List Char} {as : List α} (h : Items close valid cs as rest) {budget : List Char}
    (hdepth : cs.length < depth + rest.length) (hbudget : cs.length ≤ budget.length + rest.length) :
    EnvValue.collect close item budget cs = some (as, rest) := by
  induction h generalizing budget with
  | close rest =>
    obtain ⟨b, budget, rfl⟩ := List.exists_cons_of_length_pos (l := budget) (by simp at hbudget; omega)
    rw [EnvValue.collect, if_pos List.head?_cons]
    rfl
  | @last cs rest a hopen h =>
    have hlength := (hvalid h).length_le
    simp only [List.length_cons] at hlength
    obtain ⟨b, budget, rfl⟩ := List.exists_cons_of_length_pos (l := budget) (by omega)
    have hread := hitem (by simp only [List.length_cons]; omega) h
    rw [EnvValue.collect, if_neg hopen, hread]
    simp
  | @more cs mid rest a as hopen h htail ih =>
    have hlength := (hvalid h).length_le
    have hrest := (htail.suffix (fun _ h => hvalid h) le_rfl).length_le
    simp only [List.length_cons] at hlength
    obtain ⟨b, budget, rfl⟩ := List.exists_cons_of_length_pos (l := budget) (by omega)
    have hread := hitem (by simp only [List.length_cons]; omega) h
    simp only [List.length_cons] at hbudget
    have hmore : EnvValue.collect close item budget mid = some (as, rest) := ih (by omega) (by omega)
    rw [EnvValue.collect, if_neg hopen, hread]
    simp only [hmore, Option.map_some]

theorem not_opens_iff {cs : List Char} : ¬ Opens cs ↔ "true".toList.isPrefixOf cs = false ∧
    "false".toList.isPrefixOf cs = false ∧ ∀ c ∈ cs.head?, c ≠ '\x7b' ∧ c ≠ '[' ∧ c ≠ '"' ∧ c ≠ '\x27' := by
  simp only [Opens, not_or, ← List.isPrefixOf_iff_prefix, Bool.not_eq_true, not_exists, not_and]

/-- The reader at a depth that suffices reads what the grammar says. -/
theorem Reads.core {cs rest : List Char} {v : Value} (h : Reads cs v rest) {depth : Nat}
    (hdepth : cs.length < depth + rest.length) : EnvValue.core depth cs = some (v, rest) := by
  induction depth generalizing cs v rest with
  | zero =>
    have hlength := h.suffix.length_le
    omega
  | succ depth ih =>
    let inner : Reader Value := fun cs => (EnvValue.core depth (skipGap cs)).map fun q => (q.1, skipGap q.2)
    have hinner {cs rest : List Char} {v : Value} (hlt : cs.length < depth + rest.length) (h : Inner cs v rest) :
        inner cs = some (v, rest) := by
      cases h with
      | @gaps _ rest _ h =>
        have hcs := (skipGap_suffix cs).length_le
        have hrest := (skipGap_suffix rest).length_le
        simp only [inner, ih h (by omega), Option.map_some]
    have hpair {cs rest : List Char} {q : String × Value} (hlt : cs.length < depth + rest.length)
        (h : Field cs q rest) : pair inner cs = some (q, rest) := by
      cases h with
      | pair hk heq hv =>
        have htail := (hk.tail_suffix heq).length_le
        simp only [pair, hk.read, heq, hinner (by omega) hv, Option.map_some]
    cases h with
    | yes => rfl
    | no => rfl
    | @table cs _ fields h =>
      simp only [List.length_cons] at hdepth
      have hbudget : cs.length ≤ ('\x7b' :: cs).length + rest.length := by
        simp only [List.length_cons]
        omega
      have hread := h.collect (by decide) Field.suffix hpair (by omega) hbudget
      exact congrArg (Option.map fun q => (Value.ofPairs q.1, q.2)) hread
    | @list cs _ values h =>
      simp only [List.length_cons] at hdepth
      have hbudget : cs.length ≤ ('[' :: cs).length + rest.length := by
        simp only [List.length_cons]
        omega
      have hread := h.collect (by decide) Inner.suffix hinner (by omega) hbudget
      exact congrArg (Option.map fun q => (Value.array q.1, q.2)) hread
    | @quoted body s h rest =>
      have hbudget : body.length < ('"' :: (body ++ '"' :: rest)).length := by
        simp only [List.length_cons, List.length_append]
        omega
      exact congrArg (Option.map fun q => (Value.text (String.ofList q.1), q.2)) (h.read rest hbudget)
    | char c rest => rfl
    | @word w rest hopen hw hrest =>
      have htake : (w ++ rest).takeWhile (!isSeparator ·) = w ∧ (w ++ rest).dropWhile (!isSeparator ·) = rest := by
        have hw' : ∀ c ∈ w, (!isSeparator c) = true := fun c hc => by simp [hw c hc]
        rw [List.takeWhile_append_of_pos hw', List.dropWhile_append_of_pos hw']
        cases rest with
        | nil => exact ⟨List.append_nil w, rfl⟩
        | cons c rest => simp [hrest c rfl]
      obtain ⟨hyes, hno, hhead⟩ := not_opens_iff.1 hopen
      rw [EnvValue.core]
      dsimp only
      rw [hyes, hno, if_neg (by simp), if_neg (by simp)]
      split
      · next heq => exact absurd rfl (hhead '\x7b' (by rw [heq]; rfl)).1
      · next heq => exact absurd rfl (hhead '[' (by rw [heq]; rfl)).2.1
      · next heq => exact absurd rfl (hhead '"' (by rw [heq]; rfl)).2.2.1
      · next heq => exact absurd rfl (hhead '\x27' (by rw [heq]; rfl)).2.2.2
      · rw [htake.1, htake.2]

/-- The text that a value of a text field is: a character counts as one. -/
def text? : Value → Option String
  | .text s => some s
  | .char c => some (String.ofList [c])
  | _ => none

theorem word_ne_char (cs : List Char) (c : Char) : word cs ≠ .char c := by
  unfold word
  split
  · simp
  · split
    · simp
    · split <;> simp

/-- Only a character in apostrophes stands for a character. -/
theorem Reads.eq_of_char {cs rest : List Char} {c : Char} (h : Reads cs (.char c) rest) :
    cs = '\x27' :: c :: '\x27' :: rest := by
  generalize hv : Value.char c = v at h
  cases h with
  | char d rest => rw [Value.char.inj hv]
  | word => exact absurd hv.symm (word_ne_char _ c)
  | _ => cases hv

theorem isBlank_of_isGap {c : Char} (h : isGap c = true) : isBlank c = true := by
  simp only [isGap, Bool.or_eq_true, decide_eq_true_eq] at h
  rcases h with (((rfl | rfl) | rfl) | rfl) | rfl <;> rfl

end SignatureDocs.EnvValue

namespace SignatureDocs.Text.Trimmed

open SignatureDocs.EnvValue

variable {cs : List Char}

theorem skipGap_eq (h : Trimmed cs) : skipGap cs = cs := by
  cases cs with
  | nil => rfl
  | cons c cs =>
    refine List.dropWhile_cons_of_neg fun hgap => ?_
    have hblank := h.head c rfl
    rw [isBlank_of_isGap hgap] at hblank
    cases hblank

/-- Only gaps at the end of a text without blanks there are no gaps at all. -/
theorem suffix_eq_nil (h : Trimmed cs) {rest : List Char} (hrest : rest <:+ cs) (hgap : skipGap rest = []) :
    rest = [] := by
  by_contra hne
  have hlast : cs.getLast? = some (rest.getLast hne) := by
    obtain ⟨start, rfl⟩ := hrest
    rw [List.getLast?_append_of_ne_nil _ hne, List.getLast?_eq_some_getLast hne]
  have hblank := h.last _ hlast
  rw [isBlank_of_isGap (List.dropWhile_eq_nil_iff.1 hgap _ (List.getLast_mem hne))] at hblank
  cases hblank

theorem parse_of_reads (h : Trimmed cs) {v : Value} (hv : Reads cs v []) : parse cs = v := by
  have hcore : core (cs.length + 1) cs = some (v, []) := hv.core (by simp)
  rw [parse, h.skipGap_eq, hcore]
  rfl

theorem parse_of_not_reads (h : Trimmed cs) (hno : ∀ v, ¬ Reads cs v []) : parse cs = .text (String.ofList cs) := by
  rw [parse, h.skipGap_eq]
  split
  · next v rest hcore =>
    rw [if_neg]
    intro hgap
    have hreads := core_eq_some hcore
    rw [h.suffix_eq_nil hreads.suffix (List.isEmpty_iff.1 hgap)] at hreads
    exact hno v hreads
  · rfl

/-- A text stands for a text unless it is wholly a value of another kind. -/
theorem text?_parse_isSome_iff (h : Trimmed cs) :
    (text? (parse cs)).isSome ↔ ∀ v, Reads cs v [] → (text? v).isSome := by
  by_cases hex : ∃ v, Reads cs v []
  · obtain ⟨v, hv⟩ := hex
    rw [h.parse_of_reads hv]
    refine ⟨fun hsome w hw => ?_, fun hall => hall v hv⟩
    rwa [← h.parse_of_reads hw, h.parse_of_reads hv]
  · have hno := not_exists.1 hex
    rw [h.parse_of_not_reads hno]
    exact ⟨fun _ w hw => absurd hw (hno w), fun _ => rfl⟩

/-- A text stands for itself unless it is wholly another value. -/
theorem text?_parse_eq_self_iff (h : Trimmed cs) :
    text? (parse cs) = some (String.ofList cs) ↔ ∀ v, Reads cs v [] → v = .text (String.ofList cs) := by
  by_cases hex : ∃ v, Reads cs v []
  · obtain ⟨v, hv⟩ := hex
    rw [h.parse_of_reads hv]
    refine ⟨fun htext w hw => ?_, fun hall => by rw [hall v hv]; rfl⟩
    obtain rfl : v = w := by rw [← h.parse_of_reads hv, h.parse_of_reads hw]
    cases v with
    | text s => exact congrArg Value.text (Option.some.inj htext)
    | char c =>
      -- with its apostrophes a character is longer than the text that it stands for
      have hcs : [c] = cs := String.ofList_injective (Option.some.inj htext)
      rw [← hcs] at hv
      cases hv.eq_of_char
    | _ => cases htext
  · have hno := not_exists.1 hex
    rw [h.parse_of_not_reads hno]
    exact ⟨fun _ w hw => absurd hw (hno w), fun _ => rfl⟩

end SignatureDocs.Text.Trimmed
