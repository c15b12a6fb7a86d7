import SignatureDocs.Proofs.Grammar.Balance
import SignatureDocs.Proofs.Grammar.Priority
import SignatureDocs.Proofs.Written.RoundTrip

/-!
Declarations that are not closed. The text of a body has no brace that closes it, so a declaration whose text ends in
its body is not read, and neither is the block of a namespace around it. Reading stops before the brace of the
outermost of them.
-/
namespace SignatureDocs.Written

open SignatureDocs.Text SignatureDocs.Grammar

variable {d : Dialect} {source : List Char}

/-- What the text of a body is made of. It may end in a comment. -/
def bodyAlphabet : Alphabet where
  small := false
  marks := ['(', ')', ',', ':', ';', '?']
  cut := true
  marks_subset := List.subset_append_left _ ['\x7b', '\x7d']

/-- The effects of the phrases that can be looked for in a body. -/
def bodyEffect : Phrase → Effect
  | .typeBody | .typeArguments | .typeParameters | .template | .objectLiteral | .decorator | .block _
  | .exportForm => .never
  | .typeExpr _ | .typeOperand _ | .typeElement _ | .typeMember | .callSignature _ | .parameters | .pattern
  | .propertyKey | .classItem => .shifts 0
  | _ => .unknown

theorem bodyEffect_confirmed (d : Dialect) : bodyAlphabet.Confirms (rules d) bodyEffect := by
  intro p
  cases d <;> cases p with
  | typeExpr line | typeOperand line | typeElement line | callSignature line | block line =>
    cases line <;> decide +kernel
  | expression s | operand s | unary s | atom s | suffix s | expressions s => exact .inl rfl
  | _ => decide +kernel

/-- What comes behind the opening brace of an interface. -/
def interfaceRest : Form :=
  .both (.opt typeMembers) (.both remarks (.any [mark "\x7d", .node (.member .other) (mark "|\x7d")]))

/-- What comes behind the opening brace of a class. -/
def classRest : Form := .both (.many (.phrase .classItem)) (mark "\x7d")

section

variable {n : Int} {rest : List Char}

theorem refuses_interfaceRest (hrest : Plain bodyAlphabet n rest) (hs : rest <:+ source) :
    Refuses (rules d) interfaceRest (.before source rest) :=
  refuses_of_never (bodyEffect_confirmed d) (by decide +kernel) (by decide +kernel) (by decide +kernel)
    (.before hs) hrest

theorem refuses_classRest (hrest : Plain bodyAlphabet n rest) (hs : rest <:+ source) :
    Refuses (rules d) classRest (.before source rest) :=
  refuses_of_never (bodyEffect_confirmed d) (by decide +kernel) (by decide +kernel) (by decide +kernel)
    (.before hs) hrest

theorem shows_brace (hs : ' ' :: '\x7b' :: rest <:+ source) :
    (markSign '\x7b').Shows (rules d) (.before source (' ' :: '\x7b' :: rest)) [] (.before source rest) :=
  shows_mark rfl rfl (by simp) isGap_space hs

theorem takes_openingBrace (hs : ' ' :: '\x7b' :: rest <:+ source) : ∃ ts,
    Takes (rules d) (separatorMark "\x7b") (.before source (' ' :: '\x7b' :: rest)) ts (.before source rest) := by
  have hscan : Rule.scan (rules d) [markSign '\x7b'] 200 (separatorMark "\x7b") 0 =
      some (.takes [.node .separator 0 1 []] 1) := by
    cases d <;> rfl
  exact ⟨_, (Row.cons [] (shows_brace hs) (.nil _)).takes_of_scan 200 hscan⟩

/-- The body of an interface is not read if its text ends in it. -/
theorem refuses_typeBody (hrest : Plain bodyAlphabet n rest) (hs : ' ' :: '\x7b' :: rest <:+ source) :
    Refuses (rules d) (.phrase .typeBody) (.before source (' ' :: '\x7b' :: rest)) := by
  -- the brace is not the first half of the mark of an exact type
  have hexact : Token.markReader "\x7b|".toList [] ('\x7b' :: rest) = none := by
    cases rest with
    | nil => rfl
    | cons c rest =>
      have hc : ¬ '|' = c := by
        rintro rfl
        have hcases := hrest.head_cases
        revert hcases
        decide
      simp [Token.markReader, Reader.exactly, hc]
  have hread : Token.read? (.before source (' ' :: '\x7b' :: rest)) (.mark "\x7b|".toList []) = none :=
    Cursor.before_read?_eq_none isGap_space rfl hs hexact
  have hnot : Refuses (rules d) (.node (.member .other) (mark "\x7b|")) _ := .node (.token hread) _
  obtain ⟨ts, hopen⟩ := takes_openingBrace (d := d) hs
  have hinside := (List.suffix_append [' ', '\x7b'] _).trans hs
  exact .phrase (.both_right (.either_right hnot hopen) (refuses_interfaceRest hrest hinside))

/-- The body of a class is not read if its text ends in it. -/
theorem refuses_classBody (hrest : Plain bodyAlphabet n rest) (hs : ' ' :: '\x7b' :: rest <:+ source) :
    Refuses (rules d) (.phrase .classBody) (.before source (' ' :: '\x7b' :: rest)) := by
  let row := Row.cons [] (shows_brace (d := d) hs) (.nil _)
  have hscanParameters : Rule.scan (rules d) [markSign '\x7b'] 200 (.opt (.phrase .typeParameters)) 0 =
      some (.takes [] 0) := by
    cases d <;> rfl
  have hscanBases : Rule.scan (rules d) [markSign '\x7b'] 200 (.opt (.any [.both (.both (keyword "extends")
      (commaList1 (.both (expression .inner) (.opt (.phrase .typeArguments)))))
        (.opt (.both (keyword "implements") (commaList1 (typeExpr false)))),
      .both (keyword "implements") (commaList1 (typeExpr false))])) 0 = some (.takes [] 0) := by
    cases d <;> rfl
  obtain ⟨ts, hopen⟩ := takes_openingBrace (d := d) hs
  have hinside := (List.suffix_append [' ', '\x7b'] _).trans hs
  have hbody : Refuses (rules d) (.node .body (.both (separatorMark "\x7b") classRest)) _ :=
    .node (.both_right hopen (refuses_classRest hrest hinside)) .body
  exact .phrase (.both_right (row.takes_of_scan 200 hscanParameters)
    (.both_right (row.takes_of_scan 200 hscanBases) hbody))

/-- The statements that are tried before those with a word in front. -/
def firstStatements : List Form :=
  [interfaceDeclaration, classStatement, abstractClassDeclaration,
    .both (.many (.phrase .decorator)) (.phrase .exportForm)]

/-- The statements that are tried between a namespace and a block. -/
def middleStatements : List Form :=
  [moduleDeclaration, typeAlias, enumDeclaration, functionStatement, bindings, importStatement, importAlias,
    controlStatement, mark ";", .all [wordExcept statementWords, mark ":", .phrase .statement]]

/-- The statements that are tried last. -/
def lastStatements : List Form := [expressionStatement, .token .arrowComment]

theorem refuses_statement {c : Cursor} (h : ∀ r ∈ firstStatements ++ ambientDeclaration :: namespaceForm true ::
    (middleStatements ++ braceStatement :: lastStatements), Refuses (rules d) r c) :
    Refuses (rules d) (.phrase .statement) c :=
  .phrase (.any h)

/-- An interface is not read if its text ends in its body. -/
theorem refuses_interface (name : Name) {gap : List Char} {line : Bool} (hgap : IsGap gap line)
    (hrest : Plain bodyAlphabet n rest)
    (hs : gap ++ (openingChars .interfaceKind ++ (name.chars ++ ' ' :: '\x7b' :: rest)) <:+ source) :
    Refuses (rules d) (.phrase .statement)
      (.before source (gap ++ (openingChars .interfaceKind ++ (name.chars ++ ' ' :: '\x7b' :: rest)))) := by
  have hopen (text : List Char) : openingChars .interfaceKind ++ text = "interface".toList ++ ' ' :: text := rfl
  rw [hopen] at hs ⊢
  have hname := (List.suffix_append "interface".toList _).trans ((List.suffix_append gap _).trans hs)
  have hbrace := (List.suffix_append (' ' :: name.chars) _).trans hname
  have hword : (wordSign "interface" line).Shows (rules d) _ [] _ :=
    shows_word rfl rfl (by cases line <;> rfl) rfl hgap hs
  have hnamed := name.shows (d := d) isGap_space rfl hname
  have hscanOthers : Rule.scan (rules d) [wordSign "interface" line, nameSign false] 200
      (.any (firstStatements.tail ++ ambientDeclaration :: namespaceForm true ::
        (middleStatements ++ braceStatement :: lastStatements))) 0 = some .refuses := by
    cases d <;> cases line <;> rfl
  have hothers := (Row.cons [] hword (.cons [] hnamed (.nil _))).refuses_of_scan 200 hscanOthers
  -- of an interface all is there but the body
  have hscanBetween : Rule.scan (rules d) [markSign '\x7b'] 200 (.opt (.phrase .typeParameters)) 0 =
      some (.takes [] 0) := by
    cases d <;> rfl
  have hscanBases : Rule.scan (rules d) [markSign '\x7b'] 200 (.opt (.both (keyword "extends") (commaList1
      (.all [anyWord, .many (.both (mark ".") anyWord), .opt (.phrase .typeArguments)])))) 0 =
        some (.takes [] 0) := by
    cases d <;> rfl
  let row := Row.cons [] (shows_brace (d := d) hbrace) (.nil _)
  have hkeyword : Takes (rules d) (keyword "interface") _ [] _ := hword.takes_token rfl
  have hcalled : Takes (rules d) anyWord _ [] _ := hnamed.takes_token rfl
  have hdeclaration : Refuses (rules d) interfaceDeclaration _ :=
    .node (.both_right hkeyword (.both_right (hcalled.node .declarationName)
      (.both_right (row.takes_of_scan 200 hscanBetween) (.both_right (row.takes_of_scan 200 hscanBases)
        (.node (refuses_typeBody hrest hbrace) .body))))) _
  exact .phrase (.either hdeclaration hothers)

/-- A declared class is not read if its text ends in its body. -/
theorem refuses_class (name : Name) {gap : List Char} {line : Bool} (hgap : IsGap gap line)
    (hrest : Plain bodyAlphabet n rest)
    (hs : gap ++ (openingChars .classKind ++ (name.chars ++ ' ' :: '\x7b' :: rest)) <:+ source) :
    Refuses (rules d) (.phrase .statement)
      (.before source (gap ++ (openingChars .classKind ++ (name.chars ++ ' ' :: '\x7b' :: rest)))) := by
  have hopen (text : List Char) : openingChars .classKind ++ text =
      "declare".toList ++ ([' '] ++ ("class".toList ++ ' ' :: text)) := rfl
  rw [hopen] at hs ⊢
  have hclass := (List.suffix_append "declare".toList _).trans ((List.suffix_append gap _).trans hs)
  have hname := (List.suffix_append "class".toList _).trans ((List.suffix_append [' '] _).trans hclass)
  have hbrace := (List.suffix_append (' ' :: name.chars) _).trans hname
  have hdeclare : (wordSign "declare" line).Shows (rules d) _ [] _ :=
    shows_word rfl rfl (by cases line <;> rfl) rfl hgap hs
  have hword : (wordSign "class" false).Shows (rules d) _ [] _ := shows_word rfl rfl rfl rfl isGap_space hclass
  have hnamed := name.shows (d := d) isGap_space rfl hname
  let row := Row.cons [] hword (.cons [] hnamed (.nil _))
  have hscanStatements : Rule.scan (rules d) [wordSign "declare" line, wordSign "class" false, nameSign false] 200
      (.any (firstStatements ++ namespaceForm true :: (middleStatements ++ braceStatement :: lastStatements))) 0 =
        some .refuses := by
    cases d <;> cases line <;> rfl
  have hscanLead : Rule.scan (rules d) [wordSign "declare" line, wordSign "class" false, nameSign false] 200
      (leadWord "declare") 0 = some (.takes [] 1) := by
    cases d <;> cases line <;> rfl
  have hscanInterface : Rule.scan (rules d) [wordSign "class" false, nameSign false] 200 interfaceDeclaration 0 =
      some .refuses := by
    cases d <;> rfl
  have hscanOthers : Rule.scan (rules d) [wordSign "class" false, nameSign false] 200
      (.any [abstractClassDeclaration, enumDeclaration, functionDeclaration, bindings, moduleDeclaration,
        namespaceForm true, typeAlias, importAlias, ambientDeclaration]) 0 = some .refuses := by
    cases d <;> rfl
  have hscanModules : Rule.scan (rules d) [wordSign "class" false, nameSign false] 200
      (.any [.both (keyword "global") body, .all [keyword "module", mark ".", anyWord, mark ":", typeExpr true,
        semicolon false]]) 0 = some .refuses := by
    cases d <;> rfl
  have hscanDecorators : Rule.scan (rules d) [wordSign "class" false, nameSign false] 200
      (.many (.node .enclosed (.phrase .decorator))) 0 = some (.takes [] 0) := by
    cases d <;> rfl
  -- of a class all is there but the body
  have hkeyword : Takes (rules d) (keyword "class") _ [] _ := hword.takes_token rfl
  have hcalled : Takes (rules d) (wordExcept ["extends", "implements"]) _ [] _ := hnamed.takes_token rfl
  have hclassDeclaration : Refuses (rules d) classDeclaration _ :=
    .node (.both_right (row.takes_of_scan 200 hscanDecorators) (.both_right hkeyword
      (.both_right (hcalled.node .declarationName) (.both_left (refuses_classBody hrest hbrace) _)))) _
  have hdeclaration : Refuses (rules d) (.phrase .declaration) _ :=
    .phrase (.either (row.refuses_of_scan 200 hscanInterface)
      (.either hclassDeclaration (row.refuses_of_scan 200 hscanOthers)))
  let whole := Row.cons [] hdeclare row
  have hambient : Refuses (rules d) ambientDeclaration _ :=
    .both_right (whole.takes_of_scan 200 hscanLead) (.either hdeclaration (row.refuses_of_scan 200 hscanModules))
  obtain ⟨hfirst, hlater⟩ := List.forall_mem_append.mp (whole.refuses_of_scan 200 hscanStatements).of_any
  apply refuses_statement
  exact List.forall_mem_append.mpr ⟨hfirst, List.forall_mem_cons.mpr ⟨hambient, hlater⟩⟩

/-- Of a namespace whose block is not read only the name is read. -/
theorem takes_scopeName (name : Name) {gap : List Char} {line : Bool} (hgap : IsGap gap line)
    (hs : gap ++ (scopeChars ++ (name.chars ++ ' ' :: '\x7b' :: rest)) <:+ source)
    (hblock : Refuses (rules d) (.phrase (.block true)) (.before source (' ' :: '\x7b' :: rest))) :
    ∃ ts, Takes (rules d) (.phrase .statement)
      (.before source (gap ++ (scopeChars ++ (name.chars ++ ' ' :: '\x7b' :: rest)))) ts
      (.before source (' ' :: '\x7b' :: rest)) := by
  have hopen (text : List Char) : scopeChars ++ text = "namespace".toList ++ ' ' :: text := rfl
  rw [hopen] at hs ⊢
  have hname := (List.suffix_append "namespace".toList _).trans ((List.suffix_append gap _).trans hs)
  have hbrace := (List.suffix_append (' ' :: name.chars) _).trans hname
  have hword : (wordSign "namespace" line).Shows (rules d) _ [] _ :=
    shows_word rfl rfl (by cases line <;> rfl) rfl hgap hs
  let row := Row.cons [] (name.shows (d := d) isGap_space rfl hname) (.cons [] (shows_brace hbrace) (.nil _))
  let whole := Row.cons [] hword row
  have hscanFirst : Rule.scan (rules d) [wordSign "namespace" line, nameSign false, markSign '\x7b'] 200
      (.any (firstStatements ++ [ambientDeclaration])) 0 = some .refuses := by
    cases d <;> cases line <;> rfl
  have hscanLine : Rule.scan (rules d) [nameSign false, markSign '\x7b'] 200 (sameLineIf true true) 0 =
      some (.takes [] 0) := by
    cases d <;> rfl
  have hscanName : Rule.scan (rules d) [nameSign false, markSign '\x7b'] 200
      (.any [.token .quoted, dottedName]) 0 = some (.takes [] 1) := by
    cases d <;> rfl
  have hkeyword : Takes (rules d) (keyword "namespace") _ [] _ := hword.takes_token rfl
  have hform : Takes (rules d) (namespaceForm true) _ _ _ :=
    hkeyword.both ((row.takes_of_scan 200 hscanLine).both ((row.takes_of_scan 200 hscanName).both
      (.either_right hblock (.nothing _ _))))
  have hfirst := (whole.refuses_of_scan 200 hscanFirst).of_any
  exact ⟨_, .phrase (.any hfirst hform (middleStatements ++ braceStatement :: lastStatements))⟩

end

/-- The text starts with an item, at least up to its opening brace. -/
inductive Headed : List Char → Prop
  | declaration (kind : DeclarationKind) (name : Name) (rest : List Char) :
      Headed (openingChars kind ++ (name.chars ++ ' ' :: '\x7b' :: rest))
  | scope (name : Name) (rest : List Char) : Headed (scopeChars ++ (name.chars ++ ' ' :: '\x7b' :: rest))

theorem Headed.follows {text : List Char} (h : Headed text) : Follows text := by
  cases h with
  | declaration kind name rest => cases kind <;> exact ⟨rfl, rfl⟩
  | scope name rest => exact ⟨rfl, rfl⟩

/-- An item starts with no brace. -/
theorem Headed.eq_cons {text : List Char} (h : Headed text) : ∃ x rest, text = x :: rest ∧ x ≠ '\x7d' := by
  cases h with
  | declaration kind name rest => cases kind <;> exact ⟨_, _, rfl, by decide⟩
  | scope name rest => exact ⟨_, _, rfl, by decide⟩

/-- No script line stands before an item. -/
theorem Headed.scriptLine_eq_none {text : List Char} (h : Headed text) : scriptLine text = none := by
  cases h with
  | declaration kind name rest => cases kind <;> rfl
  | scope name rest => rfl

/-- The first two signs of each kind of item, on a line of its own. -/
def headSigns : List (List (Sign Phrase)) :=
  [[wordSign "interface" true, nameSign false], [wordSign "declare" true, wordSign "class" false],
    [wordSign "namespace" true, nameSign false]]

theorem Headed.row {text : List Char} (h : Headed text) (hs : '\n' :: text <:+ source) :
    ∃ signs ∈ headSigns, Nonempty (Row (rules d) (.before source ('\n' :: text)) signs) := by
  cases h with
  | declaration kind name rest =>
    cases kind with
    | interfaceKind =>
      have hword : (wordSign "interface" true).Shows (rules d) (.before source _) [] (.before source _) :=
        shows_word rfl rfl rfl rfl isGap_line hs
      have hname := (List.suffix_append "\ninterface".toList _).trans hs
      exact ⟨_, by simp [headSigns], ⟨.cons [] hword (.cons [] (name.shows isGap_space rfl hname) (.nil _))⟩⟩
    | classKind =>
      have hdeclare : (wordSign "declare" true).Shows (rules d) (.before source _) [] (.before source _) :=
        shows_word rfl rfl rfl rfl isGap_line hs
      have hclass := (List.suffix_append "\ndeclare".toList _).trans hs
      have hword : (wordSign "class" false).Shows (rules d) (.before source _) [] (.before source _) :=
        shows_word rfl rfl rfl rfl isGap_space hclass
      exact ⟨_, by simp [headSigns], ⟨.cons [] hdeclare (.cons [] hword (.nil _))⟩⟩
  | scope name rest =>
    have hword : (wordSign "namespace" true).Shows (rules d) (.before source _) [] (.before source _) :=
      shows_word rfl rfl rfl rfl isGap_line hs
    have hname := (List.suffix_append "\nnamespace".toList _).trans hs
    exact ⟨_, by simp [headSigns], ⟨.cons [] hword (.cons [] (name.shows isGap_space rfl hname) (.nil _))⟩⟩

/-- Nothing is read at the brace of a block that is not read. -/
theorem refuses_brace {text : List Char} (hhead : Headed text) (hs : ' ' :: '\x7b' :: '\n' :: text <:+ source)
    (hblock : Refuses (rules d) (.phrase (.block false)) (.before source (' ' :: '\x7b' :: '\n' :: text))) :
    Refuses (rules d) (.phrase .statement) (.before source (' ' :: '\x7b' :: '\n' :: text)) := by
  obtain ⟨signs, hsigns, ⟨inner⟩⟩ := hhead.row (d := d) ((List.suffix_append [' ', '\x7b'] _).trans hs)
  let row := Row.cons [] (shows_brace hs) inner
  -- the statements are as they are, but for the one that would be the block
  have hscan : Rule.scan (rules d) (markSign '\x7b' :: signs) 200
      (.any (firstStatements ++ ambientDeclaration :: namespaceForm true :: (middleStatements ++
        .all [bracketPattern, equals, expression .toLineEnd, semicolon true] :: lastStatements))) 0 =
          some .refuses := by
    simp only [headSigns, List.mem_cons, List.not_mem_nil, or_false] at hsigns
    rcases hsigns with rfl | rfl | rfl <;> cases d <;> rfl
  obtain ⟨hfirst, hmore⟩ := List.forall_mem_append.mp (row.refuses_of_scan 200 hscan).of_any
  obtain ⟨hambient, hmore⟩ := List.forall_mem_cons.mp hmore
  obtain ⟨hscope, hmore⟩ := List.forall_mem_cons.mp hmore
  obtain ⟨hmiddle, hmore⟩ := List.forall_mem_append.mp hmore
  obtain ⟨hpattern, hlast⟩ := List.forall_mem_cons.mp hmore
  have hmark : Takes (rules d) (mark "\x7b") _ [] _ := (shows_brace hs).takes_token rfl
  have hbrace : Refuses (rules d) braceStatement _ := .both_right hmark.ahead (.either hpattern hblock)
  apply refuses_statement
  apply List.forall_mem_append.mpr ⟨hfirst, List.forall_mem_cons.mpr ⟨hambient, List.forall_mem_cons.mpr ⟨hscope, ?_⟩⟩⟩
  exact List.forall_mem_append.mpr ⟨hmiddle, List.forall_mem_cons.mpr ⟨hbrace, hlast⟩⟩

/-- Reading statements stops in the text, and not before a closing brace. -/
def Halts (d : Dialect) (source text : List Char) : Prop :=
  ∃ ts c x rest, Takes (rules d) (.many (.phrase .statement)) (.before source text) ts c ∧
    c.next.text = x :: rest ∧ x ≠ '\x7d'

theorem Halts.of_refuses {gap rest : List Char} {x : Char} {line : Bool} (hgap : IsGap gap line)
    (hlead : leads (x :: rest) = true) (hx : x ≠ '\x7d') (hs : gap ++ x :: rest <:+ source)
    (h : Refuses (rules d) (.phrase .statement) (.before source (gap ++ x :: rest))) :
    Halts d source (gap ++ x :: rest) := by
  refine ⟨[], _, x, rest, .many_refuses h, ?_, hx⟩
  rw [Cursor.before_next hgap hlead hs]

/-- A block in which reading halts is not read. -/
theorem Halts.refuses_block {rest : List Char} (h : Halts d source rest) (hs : ' ' :: '\x7b' :: rest <:+ source)
    (binary : Bool) :
    Refuses (rules d) (.phrase (.block binary)) (.before source (' ' :: '\x7b' :: rest)) := by
  obtain ⟨ts, c, x, tail, htakes, hnext, hx⟩ := h
  have hopen : Takes (rules d) (mark "\x7b") _ [] _ := (shows_brace hs).takes_token rfl
  have hread : Token.read? c (.mark "\x7d".toList []) = none := by
    have hx' : ¬ '\x7d' = x := fun h => hx h.symm
    simp [Token.read?, Cursor.read?, Located.skip?, hnext, Token.markReader, Reader.exactly, hx']
  have hclose : Refuses (rules d) (mark "\x7d") c := .token hread
  have hbraced : Refuses (rules d) braced _ := .both_right hopen (.both_right htakes hclose)
  exact .phrase (.both_left hbraced _)

/-- Items are read up to where reading halts. -/
theorem halts_items (is : List Item) {gap rest : List Char} {line : Bool} (hgap : IsGap gap line)
    (hrest : Follows rest) (hs : gap ++ (itemChars is ++ rest) <:+ source)
    (h : ∀ {g : List Char} {line : Bool}, IsGap g line → g ++ rest <:+ source → Halts d source (g ++ rest)) :
    Halts d source (gap ++ (itemChars is ++ rest)) := by
  induction is generalizing gap line with
  | nil => exact h hgap hs
  | cons i is ih =>
    rw [itemChars, List.append_assoc] at hs ⊢
    obtain ⟨ts, hts, -⟩ := takes_item (d := d) i hgap (hrest.items is) hs
    -- the next item comes behind the end of this one's line
    obtain ⟨us, c, x, tail, hus, hnext, hx⟩ := ih isGap_line (i.line_suffix hs)
    exact ⟨ts ++ us, c, x, tail, hts.many_cons (i.place_line hs) hus, hnext, hx⟩

/-- The text of items that ends in the body of the last one, or in the last item of that. -/
inductive Unclosed : List Char → Prop
  | declaration (front : List Item) (kind : DeclarationKind) (name : Name) {n : Int} {rest : List Char}
      (h : Plain bodyAlphabet n rest) :
      Unclosed (itemChars front ++ (openingChars kind ++ (name.chars ++ ' ' :: '\x7b' :: rest)))
  | scope (front : List Item) (name : Name) {text : List Char} (h : Unclosed text) :
      Unclosed (itemChars front ++ (scopeChars ++ (name.chars ++ ' ' :: '\x7b' :: '\n' :: text)))

theorem Headed.items {rest : List Char} (h : Headed rest) (is : List Item) : Headed (itemChars is ++ rest) := by
  cases is with
  | nil => exact h
  | cons i is =>
    rw [itemChars, List.append_assoc]
    cases i with
    | declaration kind name ms =>
      rw [Item.declaration_append]
      exact .declaration kind name _
    | scope name items =>
      rw [Item.scope_append]
      exact .scope name _

theorem Unclosed.headed {text : List Char} (h : Unclosed text) : Headed text := by
  cases h with
  | declaration front kind name _ => exact (Headed.declaration kind name _).items front
  | scope front name _ => exact (Headed.scope name _).items front

/-- Reading halts where an item is refused. -/
theorem Headed.halts {text gap : List Char} {line : Bool} (h : Headed text) (hgap : IsGap gap line)
    (hs : gap ++ text <:+ source) (hrefuses : Refuses (rules d) (.phrase .statement) (.before source (gap ++ text))) :
    Halts d source (gap ++ text) := by
  have hlead := h.follows.1
  obtain ⟨x, rest, rfl, hx⟩ := h.eq_cons
  exact .of_refuses hgap hlead hx hs hrefuses

/-- Reading halts in a text that is not closed. -/
theorem Unclosed.halts {text : List Char} (h : Unclosed text) {gap : List Char} {line : Bool}
    (hgap : IsGap gap line) (hs : gap ++ text <:+ source) : Halts d source (gap ++ text) := by
  induction h generalizing gap line with
  | @declaration front kind name n rest hrest =>
    have hhead := Headed.declaration kind name rest
    refine halts_items front hgap hhead.follows hs fun {g line} hg hs => hhead.halts hg hs ?_
    cases kind with
    | interfaceKind => exact refuses_interface name hg hrest hs
    | classKind => exact refuses_class name hg hrest hs
  | @scope front name text h ih =>
    have hhead := Headed.scope name ('\n' :: text)
    refine halts_items front hgap hhead.follows hs fun {g line} hg hs => ?_
    have hbrace : ' ' :: '\x7b' :: '\n' :: text <:+ source :=
      (List.suffix_append name.chars _).trans
        ((List.suffix_append scopeChars _).trans ((List.suffix_append g _).trans hs))
    -- the block is not read, so the name is a statement of its own, and what follows is none
    have hinside : Halts d source ('\n' :: text) := ih isGap_line ((List.suffix_append [' ', '\x7b'] _).trans hbrace)
    obtain ⟨ts, htakes⟩ := takes_scopeName name hg hs (hinside.refuses_block hbrace true)
    have hrefuses := refuses_brace h.headed hbrace (hinside.refuses_block hbrace false)
    have hhalts : Halts d source ([' '] ++ '\x7b' :: '\n' :: text) :=
      .of_refuses isGap_space rfl (by decide) hbrace hrefuses
    obtain ⟨us, c, x, rest, hus, hnext, hx⟩ := hhalts
    rw [← List.append_assoc scopeChars] at hs htakes ⊢
    have hlt := Cursor.before_lt hs (by simp [scopeChars])
    exact ⟨ts ++ us, c, x, rest, htakes.many_cons hlt hus, hnext, hx⟩

/-- A file that is not closed is refused. -/
theorem Unclosed.refuses_program (h : Unclosed source) : Refuses (rules d) program (.start source) := by
  have hs : [] ++ source <:+ source := List.suffix_rfl
  have hscript : Refuses (rules d) (.token .scriptLine) (.before source source) :=
    .token (Cursor.before_read?_eq_none isGap_nil h.headed.follows.1 hs h.headed.scriptLine_eq_none)
  obtain ⟨ts, c, x, rest, htakes, hnext, -⟩ := h.halts (d := d) isGap_nil hs
  have hfinish : Refuses (rules d) (.token .finish) c := .token (by simp [Token.read?, hnext])
  have hprogram : Refuses (rules d) program (.before source source) :=
    .both_right (.either_right hscript (.nothing _ _)) (.both_right htakes hfinish)
  have hstart : Cursor.before source source = .start source := by
    rw [Cursor.before, place, Nat.sub_self]
    rfl
  rwa [hstart] at hprogram

end SignatureDocs.Written
