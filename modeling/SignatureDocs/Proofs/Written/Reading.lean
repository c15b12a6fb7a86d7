import SignatureDocs.Proofs.Written.Basic

/-!
The grammar reads what is written. What stands between two lists is read by scanning; each list is followed by
induction, with the text that is left to tell the place.
-/
namespace SignatureDocs.Written

open SignatureDocs.Text SignatureDocs.Grammar

variable {d : Dialect} {source : List Char}

abbrev nameSign (line : Bool) : Sign Phrase := ⟨.name, line, false, none⟩

abbrev wordSign (text : String) (line : Bool) : Sign Phrase := ⟨.word text.toList, line, false, none⟩

abbrev markSign (c : Char) : Sign Phrase := ⟨.mark c, false, false, none⟩

/-- A mark with which a line starts. -/
abbrev lineMarkSign (c : Char) : Sign Phrase := ⟨.mark c, true, false, none⟩

abbrev phraseSign (p : Phrase) (c : Char) : Sign Phrase := ⟨.mark c, false, false, some p⟩

abbrev finishSign : Sign Phrase := ⟨.finish, true, false, none⟩

/-- Anything that starts a line. -/
abbrev lineSign : Sign Phrase := ⟨.unknown, true, false, none⟩

theorem Name.shows (n : Name) {gap rest : List Char} {line : Bool} (hgap : IsGap gap line)
    (hrest : breaksWord rest = true) (hs : gap ++ (n.chars ++ rest) <:+ source) :
    (nameSign line).Shows (rules d) (.before source (gap ++ (n.chars ++ rest))) [] (.before source rest) :=
  shows_name n.isUpper n.isAlphanum hrest hgap hs

theorem Name.leads (n : Name) (rest : List Char) : leads (n.chars ++ rest) = true :=
  (standsOn_of_isUpper n.isUpper true (n.more ++ rest)).1

theorem Name.next (n : Name) {gap rest : List Char} {line : Bool} (hgap : IsGap gap line)
    (hs : gap ++ (n.chars ++ rest) <:+ source) :
    (Cursor.before source (gap ++ (n.chars ++ rest))).next.offset = place source (n.chars ++ rest) := by
  rw [Cursor.before_next hgap (n.leads rest) hs]

/-- A mark right behind the lexeme before it. -/
theorem shows_markHere {c : Char} {rest : List Char} (hlead : leads (c :: rest) = true)
    (hstands : standsOn false (c :: rest) = true) (hs : c :: rest <:+ source) :
    (markSign c).Shows (rules d) (.before source (c :: rest)) [] (.before source rest) :=
  shows_mark hlead hstands (by simp) isGap_nil hs

theorem Parameter.chars_append (p : Parameter) (rest : List Char) : p.chars ++ rest =
    p.name.chars ++ ((if p.optional then ['?'] else []) ++ ':' :: ' ' :: (p.type.chars ++ rest)) := by
  simp [Parameter.chars]

theorem scan_parameter {c : Char} (hc : c = ',' ∨ c = ')') :
    Rule.scan (rules d) [nameSign false, markSign ':', nameSign false, markSign c] 200 parameter 0 =
      some (.takes [] 3) := by
  rcases hc with rfl | rfl <;> cases d <;> rfl

theorem scan_parameter_optional {c : Char} (hc : c = ',' ∨ c = ')') :
    Rule.scan (rules d) [nameSign false, markSign '?', markSign ':', nameSign false, markSign c] 200
      parameter 0 = some (.takes [] 4) := by
  rcases hc with rfl | rfl <;> cases d <;> rfl

theorem takes_parameter (p : Parameter) {gap : List Char} (hgap : IsGap gap false) {c : Char}
    (hc : c = ',' ∨ c = ')') {rest : List Char} (hs : gap ++ (p.chars ++ c :: rest) <:+ source) :
    Takes (rules d) parameter (.before source (gap ++ (p.chars ++ c :: rest))) []
      (.before source (c :: rest)) := by
  rw [p.chars_append] at hs ⊢
  have hname := (List.suffix_append gap _).trans hs
  have hcolon := (List.suffix_append p.name.chars _).trans hname
  have htype := (List.suffix_append (if p.optional then ['?'] else []) _).trans hcolon
  have hend := (List.suffix_append (':' :: ' ' :: p.type.chars) _).trans htype
  have hbreaks : breaksWord (c :: rest) = true := by rcases hc with rfl | rfl <;> rfl
  have hmark : (markSign c).Shows (rules d) (.before source (c :: rest)) [] (.before source rest) := by
    rcases hc with rfl | rfl <;> exact shows_markHere rfl rfl hend
  let ending : Row (rules d) (.before source (':' :: ' ' :: (p.type.chars ++ c :: rest)))
      [markSign ':', nameSign false, markSign c] :=
    .cons [] (shows_markHere rfl rfl htype) <|
    .cons [] (p.type.shows isGap_space hbreaks ((List.suffix_cons ':' _).trans htype)) <|
    .cons [] hmark (.nil _)
  cases hopt : p.optional with
  | false =>
    simp only [hopt, Bool.false_eq_true, if_false, List.nil_append] at hs ⊢
    let row := Row.cons [] (p.name.shows hgap rfl hs) ending
    exact row.takes_of_scan 200 (scan_parameter hc)
  | true =>
    simp only [hopt, if_true] at hs hcolon ⊢
    let row := Row.cons [] (p.name.shows hgap rfl hs) <| .cons [] (shows_markHere rfl rfl hcolon) ending
    exact row.takes_of_scan 200 (scan_parameter_optional hc)

theorem moreChars_cases (ps : List Parameter) (rest : List Char) :
    ∃ c r, (c = ',' ∨ c = ')') ∧ moreChars ps ++ ')' :: rest = c :: r := by
  cases ps with
  | nil => exact ⟨_, _, .inr rfl, rfl⟩
  | cons p ps => exact ⟨_, _, .inl rfl, rfl⟩

/-- The parameter before others reaches up to what is between them. -/
theorem takes_parameter_more (p : Parameter) (ps : List Parameter) {gap : List Char}
    (hgap : IsGap gap false) {rest : List Char}
    (hs : gap ++ (p.chars ++ (moreChars ps ++ ')' :: rest)) <:+ source) :
    Takes (rules d) parameter (.before source (gap ++ (p.chars ++ (moreChars ps ++ ')' :: rest)))) []
      (.before source (moreChars ps ++ ')' :: rest)) := by
  obtain ⟨c, r, hc, heq⟩ := moreChars_cases ps rest
  rw [heq] at hs ⊢
  exact takes_parameter p hgap hc hs

theorem takes_moreChars (ps : List Parameter) {rest : List Char}
    (hs : moreChars ps ++ ')' :: rest <:+ source) :
    Takes (rules d) (.many (.both (mark ",") parameter)) (.before source (moreChars ps ++ ')' :: rest)) []
      (.before source (')' :: rest)) := by
  induction ps with
  | nil =>
    have hscan : Rule.scan (rules d) [markSign ')'] 200 (.many (.both (mark ",") parameter)) 0 =
        some (.takes [] 0) := by
      cases d <;> rfl
    let row : Row (rules d) _ _ := .cons [] (shows_markHere rfl rfl hs) (.nil _)
    exact row.takes_of_scan 200 hscan
  | cons p ps ih =>
    have heq : moreChars (p :: ps) ++ ')' :: rest =
        ',' :: ([' '] ++ (p.chars ++ (moreChars ps ++ ')' :: rest))) := by
      simp [moreChars]
    rw [heq] at hs ⊢
    have hspace := (List.suffix_cons ',' _).trans hs
    have hmore := (List.suffix_append (' ' :: p.chars) _).trans hspace
    have hcomma : Takes (rules d) (mark ",") _ [] _ := (shows_markHere rfl rfl hs).takes_token rfl
    have hitem := hcomma.both (takes_parameter_more p ps isGap_space hspace)
    exact hitem.many_cons (place_lt (x := ',' :: ' ' :: p.chars) hs (by simp)) (ih hmore)

theorem takes_parameters (ps : List Parameter) {rest : List Char}
    (hs : '(' :: (parameterChars ps ++ ')' :: rest) <:+ source) :
    Takes (rules d) (.phrase .parameters) (.before source ('(' :: (parameterChars ps ++ ')' :: rest))) []
      (.before source rest) := by
  have hinside := (List.suffix_cons '(' _).trans hs
  have hend := (List.suffix_append (parameterChars ps) _).trans hinside
  have hclose : (markSign ')').Shows (rules d) (.before source (')' :: rest)) [] (.before source rest) :=
    shows_markHere rfl rfl hend
  cases ps with
  | nil =>
    have hscan : Rule.scan (rules d) [markSign '(', markSign ')'] 200 (.phrase .parameters) 0 =
        some (.takes [] 2) := by
      cases d <;> rfl
    exact (Row.cons [] (shows_markHere rfl rfl hs) <| .cons [] hclose (.nil _)).takes_of_scan 200 hscan
  | cons p ps =>
    rw [parameterChars, List.append_assoc] at hs hinside ⊢
    have hmore := (List.suffix_append p.chars _).trans hinside
    have hopen : Takes (rules d) (mark "(") _ [] _ := (shows_markHere rfl rfl hs).takes_token rfl
    have hfirst := takes_parameter_more (d := d) p ps isGap_nil hinside
    -- no comma stands behind the last parameter
    have hscan : Rule.scan (rules d) [markSign ')'] 200 (.opt (mark ",")) 0 = some (.takes [] 0) := by
      cases d <;> rfl
    have hlast : Takes (rules d) (.opt (mark ",")) (.before source (')' :: rest)) [] _ :=
      (Row.cons [] hclose (.nil _)).takes_of_scan 200 hscan
    have hlist := (hfirst.both (takes_moreChars ps hmore)).both hlast
    have hrest := (hlist.either_left .nothing).both (hclose.takes_token (t := .mark ")".toList []) rfl)
    exact (hopen.both hrest).phrase

/-- The tree of a separator with the rest of the text behind it. -/
def separatorNode (source : List Char) (c : Char) (rest : List Char) : Grammar.Tree :=
  .node .separator ⟨place source (c :: rest), place source rest⟩ []

/-- The comments of another kind that the members of an interface may stand among. -/
def remarks : Form := .many (.node (.member .other) (.token .arrowComment))

def interfaceMember : Form := .both remarks (.phrase .typeMember)

abbrev methodSigns : List (Sign Phrase) :=
  [nameSign true, phraseSign (.callSignature true) '(', markSign ';']

/-- The tree of a method, by its signs. -/
abbrev methodSketch : Sketch := .node (.member .method) 0 2 [.node .memberName 0 1 [], .given 1]

namespace Method

/-- The tree of a method with the rest of the text behind its semicolon. -/
def node (source : List Char) (m : Method) (rest : List Char) : Grammar.Tree :=
  .node (.member .method) ⟨place source (m.signature ++ rest), place source (';' :: rest)⟩
    [.node .memberName
      ⟨place source (m.signature ++ rest), place source ('(' :: (m.inner ++ ';' :: rest))⟩ []]

theorem isGap_lead (m : Method) : IsGap m.lead true := by
  rw [lead]
  cases m.comment with
  | none => exact isGap_line
  | some c => exact isGap_remark c.isRemark

theorem takes_inner (m : Method) {rest : List Char} (hs : '(' :: (m.inner ++ ';' :: rest) <:+ source) :
    Takes (rules d) (.phrase (.callSignature true)) (.before source ('(' :: (m.inner ++ ';' :: rest))) []
      (.before source (';' :: rest)) := by
  rw [inner, List.append_assoc, List.cons_append, List.cons_append, List.cons_append] at hs ⊢
  have hparameters := takes_parameters (d := d) m.parameters hs
  have hbehind := (List.suffix_cons ')' (':' :: ' ' :: (m.result.chars ++ ';' :: rest))).trans
    (List.suffix_append (parameterChars m.parameters) _)
  have hcolon := hbehind.trans ((List.suffix_cons '(' _).trans hs)
  have hspace := (List.suffix_cons ':' _).trans hcolon
  have hend := (List.suffix_append (' ' :: m.result.chars) _).trans hspace
  have hscan : Rule.scan (rules d) [phraseSign .parameters '(', markSign ':', nameSign false, markSign ';']
      200 (.phrase (.callSignature true)) 0 = some (.takes [.given 0] 3) := by
    cases d <;> rfl
  let row : Row (rules d) _ _ :=
    .cons [] (shows_phrase rfl rfl isGap_nil hs hbehind hparameters) <|
    .cons [] (shows_markHere rfl rfl hcolon) <|
    .cons [] (m.result.shows isGap_space rfl hspace) <|
    .cons [] (shows_markHere rfl rfl hend) (.nil _)
  exact row.takes_of_scan 200 hscan

/-- The semicolon of a method is further on in the text. -/
theorem semicolon_suffix (m : Method) {rest : List Char}
    (hs : m.lead ++ (m.signature ++ rest) <:+ source) : ';' :: rest <:+ source := by
  rw [signature_append] at hs
  have hopen := (List.suffix_append m.name.chars _).trans ((List.suffix_append m.lead _).trans hs)
  exact (List.suffix_append m.inner _).trans ((List.suffix_cons '(' _).trans hopen)

theorem place_semicolon (m : Method) {x rest : List Char}
    (hs : x ++ (m.lead ++ (m.signature ++ rest)) <:+ source) :
    place source (x ++ (m.lead ++ (m.signature ++ rest))) < place source (';' :: rest) := by
  have heq : x ++ (m.lead ++ (m.signature ++ rest)) =
      (x ++ (m.lead ++ (m.name.chars ++ '(' :: m.inner))) ++ ';' :: rest := by
    simp [signature_append]
  rw [heq] at hs ⊢
  exact place_lt hs (by simp)

/-- The signs of a method, from the gap before it. -/
def row (d : Dialect) (m : Method) {rest : List Char}
    (hs : m.lead ++ (m.name.chars ++ '(' :: (m.inner ++ ';' :: rest)) <:+ source) :
    Row (rules d) (.before source (m.lead ++ (m.name.chars ++ '(' :: (m.inner ++ ';' :: rest))))
      methodSigns :=
  have hopen := (List.suffix_append m.name.chars _).trans ((List.suffix_append m.lead _).trans hs)
  have hend := (List.suffix_append m.inner _).trans ((List.suffix_cons '(' _).trans hopen)
  .cons [] (m.name.shows m.isGap_lead rfl hs) <|
  .cons [] (shows_phrase rfl rfl isGap_nil hopen (List.suffix_append _ _) (m.takes_inner hopen)) <|
  .cons [] (shows_markHere rfl rfl hend) (.nil _)

theorem takes_interfaceMember (m : Method) {rest : List Char}
    (hs : m.lead ++ (m.signature ++ rest) <:+ source) :
    Takes (rules d) interfaceMember (.before source (m.lead ++ (m.signature ++ rest)))
      [m.node source rest] (.before source (';' :: rest)) := by
  have hscan : Rule.scan (rules d) methodSigns 200 interfaceMember 0 =
      some (.takes [methodSketch] 2) := by
    cases d <;> rfl
  rw [node, signature_append] at *
  rw [← m.name.next m.isGap_lead hs]
  exact (m.row d hs).takes_of_scan 200 hscan

/-- A rule that accepts the signs of a method and takes none of them takes nothing before the method. -/
theorem takes_nothing (m : Method) {rule : Form} {rest : List Char}
    (hscan : Rule.scan (rules d) methodSigns 200 rule 0 = some (.takes [] 0))
    (hs : m.lead ++ (m.signature ++ rest) <:+ source) :
    Takes (rules d) rule (.before source (m.lead ++ (m.signature ++ rest))) []
      (.before source (m.lead ++ (m.signature ++ rest))) := by
  rw [signature_append] at *
  exact (m.row d hs).takes_of_scan 200 hscan

theorem takes_classItem (m : Method) {rest : List Char}
    (hs : m.lead ++ (m.signature ++ rest) <:+ source) :
    Takes (rules d) (.phrase .classItem) (.before source (m.lead ++ (m.signature ++ rest)))
      [m.node source rest, separatorNode source ';' rest] (.before source rest) := by
  have hscan : Rule.scan (rules d) methodSigns 200 (.phrase .classItem) 0 =
      some (.takes [methodSketch, .node .separator 2 3 []] 3) := by
    cases d <;> rfl
  rw [node, signature_append] at *
  rw [← m.name.next m.isGap_lead hs]
  exact (m.row d hs).takes_of_scan 200 hscan

end Method

/-- The trees of methods up to the rest of the text. -/
def memberNodes (source rest : List Char) : List Method → List Grammar.Tree
  | [] => []
  | m :: ms => m.node source (methodChars rest ms) :: separatorNode source ';' (methodChars rest ms) ::
    memberNodes source rest ms

/-- The trees inside a body. -/
def bodyNodes (source rest : List Char) (ms : List Method) : List Grammar.Tree :=
  separatorNode source '\x7b' (methodChars rest ms) :: memberNodes source rest ms

/-- A brace that closes a block on a line of its own. -/
theorem shows_close {rest : List Char} (hs : closeChars rest <:+ source) :
    (lineMarkSign '\x7d').Shows (rules d) (.before source (closeChars rest)) []
      (.before source rest) :=
  shows_mark rfl rfl (by simp) isGap_line hs

theorem next_brace {rest : List Char} (hs : ' ' :: '\x7b' :: rest <:+ source) :
    (Cursor.before source (' ' :: '\x7b' :: rest)).next.offset = place source ('\x7b' :: rest) :=
  congrArg Located.offset (Cursor.before_next isGap_space rfl hs)

/-- What stands between two members of an interface. -/
def memberSeparators : Form := .any [separatorMark ",", separatorMark ";", lineEnd false]

/-- One more member of an interface. -/
def nextMember : Form := .both memberSeparators interfaceMember

theorem takes_memberSeparator {rest : List Char} (hs : ';' :: rest <:+ source) :
    Takes (rules d) memberSeparators (.before source (';' :: rest)) [separatorNode source ';' rest]
      (.before source rest) := by
  have hscan : Rule.scan (rules d) [markSign ';'] 200 memberSeparators 0 =
      some (.takes [.node .separator 0 1 []] 1) := by
    cases d <;> rfl
  exact (Row.cons [] (shows_markHere rfl rfl hs) (.nil _)).takes_of_scan 200 hscan

/-- The semicolon of the last method. -/
theorem lastSemicolon_suffix (ms : List Method) {rest : List Char}
    (hs : ';' :: methodChars rest ms <:+ source) : ';' :: rest <:+ source := by
  induction ms with
  | nil => exact hs
  | cons m ms ih => exact ih (m.semicolon_suffix ((List.suffix_cons ';' _).trans hs))

/-- The members behind the first, with their separators. The last separator is left, for nothing follows it. -/
theorem takes_nextMembers (ms : List Method) {rest : List Char}
    (hs : ';' :: methodChars (closeChars rest) ms <:+ source) :
    ∃ ts, Takes (rules d) (.many nextMember) (.before source (';' :: methodChars (closeChars rest) ms))
        ts (.before source (';' :: closeChars rest)) ∧
      ts ++ [separatorNode source ';' (closeChars rest)] =
        separatorNode source ';' (methodChars (closeChars rest) ms) ::
          memberNodes source (closeChars rest) ms := by
  induction ms with
  | nil =>
    have hscan : Rule.scan (rules d) [markSign ';', lineMarkSign '\x7d'] 200 (.many nextMember) 0 =
        some (.takes [] 0) := by
      cases d <;> rfl
    -- a separator is there, but a brace and no member behind it, so it is given back
    let row := Row.cons [] (shows_markHere (d := d) rfl rfl hs) <|
      .cons [] (shows_close ((List.suffix_cons ';' _).trans hs)) (.nil _)
    exact ⟨[], row.takes_of_scan 200 hscan, rfl⟩
  | cons m ms ih =>
    have hmember := (List.suffix_cons ';' _).trans hs
    have hend := m.semicolon_suffix hmember
    obtain ⟨ts, hts, heq⟩ := ih hend
    have hitem := (takes_memberSeparator (d := d) hs).both (m.takes_interfaceMember hmember)
    -- the separators are off by one: each member is read with the one before it
    refine ⟨_, hitem.many_cons (m.place_semicolon (x := [';']) hs) hts, ?_⟩
    rw [List.append_assoc, heq]
    rfl

/-- The members of an interface, at least one. -/
def typeMembers : Form :=
  .all [.opt (.any [separatorMark ",", separatorMark ";"]), interfaceMember,
    .many nextMember, .opt memberSeparators]

theorem takes_typeMembers (ms : List Method) {rest : List Char}
    (hs : methodChars (closeChars rest) ms <:+ source) :
    Takes (rules d) (.opt typeMembers) (.before source (methodChars (closeChars rest) ms))
      (memberNodes source (closeChars rest) ms) (.before source (closeChars rest)) := by
  cases ms with
  | nil =>
    have hscan : Rule.scan (rules d) [lineMarkSign '\x7d'] 200 (.opt typeMembers) 0 =
        some (.takes [] 0) := by
      cases d <;> rfl
    exact (Row.cons [] (shows_close hs) (.nil _)).takes_of_scan 200 hscan
  | cons m ms =>
    have hsemicolon := m.semicolon_suffix hs
    have hscanFirst : Rule.scan (rules d) methodSigns 200
        (.opt (.any [separatorMark ",", separatorMark ";"])) 0 = some (.takes [] 0) := by
      cases d <;> rfl
    obtain ⟨ts, hts, heq⟩ := takes_nextMembers (d := d) ms hsemicolon
    have hlast := (takes_memberSeparator (d := d) (lastSemicolon_suffix ms hsemicolon)).either_left .nothing
    have hmembers := (m.takes_nothing hscanFirst hs).both ((m.takes_interfaceMember hs).both (hts.both hlast))
    rw [heq] at hmembers
    exact hmembers.either_left .nothing

theorem head_methodChars (ms : List Method) (rest : List Char) :
    (methodChars ('\n' :: rest) ms).head? = some '\n' := by
  cases ms with
  | nil => rfl
  | cons m ms =>
    rw [methodChars, Method.lead]
    cases m.comment <;> rfl

theorem takes_typeBody (ms : List Method) {rest : List Char}
    (hs : ' ' :: '\x7b' :: methodChars (closeChars rest) ms <:+ source) :
    Takes (rules d) (.phrase .typeBody)
      (.before source (' ' :: '\x7b' :: methodChars (closeChars rest) ms))
      (bodyNodes source (closeChars rest) ms) (.before source rest) := by
  have hinside := (List.suffix_append [' ', '\x7b'] _).trans hs
  have hend := methodChars_suffix ms hinside
  have hscanOpen : Rule.scan (rules d) [⟨.mark '\x7b', false, true, none⟩] 200
      (.any [.node (.member .other) (mark "\x7b|"), separatorMark "\x7b"]) 0 =
        some (.takes [.node .separator 0 1 []] 1) := by
    cases d <;> rfl
  have hscanClose : Rule.scan (rules d) [lineMarkSign '\x7d'] 200
      (.both remarks (.any [mark "\x7d", .node (.member .other) (mark "|\x7d")])) 0 =
        some (.takes [] 1) := by
    cases d <;> rfl
  -- a line ends behind the brace, so it is not the first half of another mark
  have hspaced : (methodChars (closeChars rest) ms).head?.any isSourceBlank = true := by
    rw [head_methodChars]
    rfl
  have hopen := (Row.cons [] (shows_mark rfl rfl (fun _ => hspaced) isGap_space hs)
    (.nil _)).takes_of_scan 200 hscanOpen
  have hclose : Takes (rules d) _ (.before source (closeChars rest)) [] _ :=
    (Row.cons [] (shows_close hend) (.nil _)).takes_of_scan 200 hscanClose
  have hmembers := (takes_typeMembers ms hinside).both hclose
  rw [List.append_nil] at hmembers
  rw [bodyNodes, separatorNode, ← next_brace hs]
  exact (hopen.both hmembers).phrase

theorem takes_classItems (ms : List Method) {rest : List Char}
    (hs : methodChars (closeChars rest) ms <:+ source) :
    Takes (rules d) (.many (.phrase .classItem)) (.before source (methodChars (closeChars rest) ms))
      (memberNodes source (closeChars rest) ms) (.before source (closeChars rest)) := by
  induction ms with
  | nil =>
    have hscan : Rule.scan (rules d) [lineMarkSign '\x7d'] 200 (.many (.phrase .classItem)) 0 =
        some (.takes [] 0) := by
      cases d <;> rfl
    exact (Row.cons [] (shows_close hs) (.nil _)).takes_of_scan 200 hscan
  | cons m ms ih =>
    have hsemicolon := m.semicolon_suffix hs
    have hlt := (m.place_semicolon (x := []) hs).trans (place_lt (x := [';']) hsemicolon (by simp))
    exact (m.takes_classItem hs).many_cons hlt (ih ((List.suffix_cons ';' _).trans hsemicolon))

theorem takes_classBody (ms : List Method) {rest : List Char}
    (hs : ' ' :: '\x7b' :: methodChars (closeChars rest) ms <:+ source) :
    Takes (rules d) (.phrase .classBody)
      (.before source (' ' :: '\x7b' :: methodChars (closeChars rest) ms))
      [.node .body ⟨place source ('\x7b' :: methodChars (closeChars rest) ms), place source rest⟩
        (bodyNodes source (closeChars rest) ms)] (.before source rest) := by
  have hinside := (List.suffix_append [' ', '\x7b'] _).trans hs
  have hend := methodChars_suffix ms hinside
  have hbrace : (markSign '\x7b').Shows (rules d) (.before source _) [] (.before source _) :=
    shows_mark rfl rfl (by simp) isGap_space hs
  let row := Row.cons [] hbrace (.nil _)
  have hscanParameters : Rule.scan (rules d) [markSign '\x7b'] 200 (.opt (.phrase .typeParameters)) 0 =
      some (.takes [] 0) := by
    cases d <;> rfl
  have hscanBases : Rule.scan (rules d) [markSign '\x7b'] 200 (.opt (.any [.both (.both (keyword "extends")
      (commaList1 (.both (expression .inner) (.opt (.phrase .typeArguments)))))
        (.opt (.both (keyword "implements") (commaList1 (typeExpr false)))),
      .both (keyword "implements") (commaList1 (typeExpr false))])) 0 = some (.takes [] 0) := by
    cases d <;> rfl
  have hscanOpen : Rule.scan (rules d) [markSign '\x7b'] 200 (separatorMark "\x7b") 0 =
      some (.takes [.node .separator 0 1 []] 1) := by
    cases d <;> rfl
  have hopen := row.takes_of_scan 200 hscanOpen
  have hclose : Takes (rules d) (mark "\x7d") _ [] _ := (shows_close hend).takes_token rfl
  have hitems := (takes_classItems ms hinside).both hclose
  rw [List.append_nil] at hitems
  rw [bodyNodes, separatorNode, ← next_brace hs]
  have hbody := (hopen.both hitems).node .body
  exact ((row.takes_of_scan 200 hscanParameters).both ((row.takes_of_scan 200 hscanBases).both hbody)).phrase

/-- The tree of a class or interface with the rest of the text behind it. -/
def declarationNode (source rest : List Char) (kind : DeclarationKind) (span : Span) (name : Name)
    (ms : List Method) : Grammar.Tree :=
  let inside := methodChars (closeChars rest) ms
  .node (.declaration kind) span [
    .node .declarationName ⟨place source (name.chars ++ ' ' :: '\x7b' :: inside),
      place source (' ' :: '\x7b' :: inside)⟩ [],
    .node .body ⟨place source ('\x7b' :: inside), place source rest⟩ (bodyNodes source (closeChars rest) ms)]

/-- The text can follow a line of its own. -/
def Follows (text : List Char) : Prop := leads text = true ∧ standsOn true text = true

/-- What a statement is followed by is only known to be on a line of its own. -/
theorem shows_following {rest : List Char} (hrest : Follows rest) (hs : '\n' :: rest <:+ source) (c : Cursor) :
    lineSign.Shows (rules d) (.before source ('\n' :: rest)) [] c :=
  shows_unknown isGap_line hrest.1 hrest.2 hs c

theorem close_suffix (ms : List Method) (rest : List Char) : rest <:+ methodChars (closeChars rest) ms :=
  (List.suffix_append ['\n', '\x7d'] rest).trans (methodChars_suffix ms List.suffix_rfl)

theorem takes_interface (name : Name) (ms : List Method) {gap rest : List Char} {line : Bool}
    (hgap : IsGap gap line)
    (hs : gap ++ (openingChars .interfaceKind ++
      (name.chars ++ ' ' :: '\x7b' :: methodChars (closeChars rest) ms)) <:+ source) :
    ∃ span, Takes (rules d) (.phrase .statement) (.before source (gap ++ (openingChars .interfaceKind ++
        (name.chars ++ ' ' :: '\x7b' :: methodChars (closeChars rest) ms))))
      [declarationNode source rest .interfaceKind span name ms] (.before source rest) := by
  have hopen (text : List Char) : openingChars .interfaceKind ++ text = "interface".toList ++ ' ' :: text := rfl
  rw [hopen] at hs ⊢
  have hname := (List.suffix_append "interface".toList _).trans ((List.suffix_append gap _).trans hs)
  have hbrace := (List.suffix_append (' ' :: name.chars) _).trans hname
  have hrest := close_suffix ms rest
  have hscan : Rule.scan (rules d) [wordSign "interface" line, nameSign false, phraseSign .typeBody '\x7b']
      200 (.phrase .statement) 0 = some (.takes [.node (.declaration .interfaceKind) 0 3
        [.node .declarationName 1 2 [], .node .body 2 3 [.given 2]]] 3) := by
    cases d <;> cases line <;> rfl
  have hword : (wordSign "interface" line).Shows (rules d) _ [] _ :=
    shows_word rfl rfl (by cases line <;> rfl) rfl hgap hs
  let row := Row.cons [] hword <|
    .cons [] (name.shows isGap_space rfl hname) <|
    .cons _ (shows_phrase rfl rfl isGap_space hbrace hrest (takes_typeBody ms hbrace)) (.nil _)
  -- a node starts where the lexeme does, behind the gap
  simp only [declarationNode]
  rw [← List.append_nil (bodyNodes source (closeChars rest) ms), ← next_brace hbrace,
    ← name.next isGap_space hname]
  exact ⟨_, row.takes_of_scan 200 hscan⟩

theorem takes_class (name : Name) (ms : List Method) {gap rest : List Char} {line : Bool}
    (hgap : IsGap gap line) (hrest : Follows rest)
    (hs : gap ++ (openingChars .classKind ++
      (name.chars ++ ' ' :: '\x7b' :: methodChars (closeChars ('\n' :: rest)) ms)) <:+ source) :
    ∃ span, Takes (rules d) (.phrase .statement) (.before source (gap ++ (openingChars .classKind ++
        (name.chars ++ ' ' :: '\x7b' :: methodChars (closeChars ('\n' :: rest)) ms))))
      [declarationNode source ('\n' :: rest) .classKind span name ms] (.before source ('\n' :: rest)) := by
  have hopen (text : List Char) : openingChars .classKind ++ text =
      "declare".toList ++ ([' '] ++ ("class".toList ++ ' ' :: text)) := rfl
  rw [hopen] at hs ⊢
  have hclass := (List.suffix_append "declare".toList _).trans ((List.suffix_append gap _).trans hs)
  have hname := (List.suffix_append "class".toList _).trans ((List.suffix_append [' '] _).trans hclass)
  have hbrace := (List.suffix_append (' ' :: name.chars) _).trans hname
  have hend := close_suffix ms ('\n' :: rest)
  have hnext := hend.trans ((List.suffix_append [' ', '\x7b'] _).trans hbrace)
  have hscan : Rule.scan (rules d) [wordSign "declare" line, wordSign "class" false, nameSign false,
      phraseSign .classBody '\x7b', lineSign] 200 (.phrase .statement) 0 =
        some (.takes [.node (.declaration .classKind) 1 4 [.node .declarationName 2 3 [], .given 3]] 4) := by
    cases d <;> cases line <;> rfl
  have hdeclare : (wordSign "declare" line).Shows (rules d) _ [] _ :=
    shows_word rfl rfl (by cases line <;> rfl) rfl hgap hs
  have hword : (wordSign "class" false).Shows (rules d) _ [] _ :=
    shows_word rfl rfl rfl rfl isGap_space hclass
  let row := Row.cons [] hdeclare <| .cons [] hword <|
    .cons [] (name.shows isGap_space rfl hname) <|
    .cons _ (shows_phrase rfl rfl isGap_space hbrace hend (takes_classBody ms hbrace)) <|
    .cons [] (shows_following hrest hnext (.before source rest)) (.nil _)
  simp only [declarationNode]
  rw [← name.next isGap_space hname]
  exact ⟨_, row.takes_of_scan 200 hscan⟩

end SignatureDocs.Written
