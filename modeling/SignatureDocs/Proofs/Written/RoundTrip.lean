import SignatureDocs.Proofs.Method.Comment
import SignatureDocs.Proofs.Outline.Walk
import SignatureDocs.Proofs.Written.Reading

/-!
From written declarations back to their methods. The trees of a body give one member for each method, cut out as it
was written and with the gap before it, in which its comment is found.
-/
namespace SignatureDocs.Written

open SignatureDocs.Text SignatureDocs.Grammar

variable {d : Dialect} {source : List Char}

/-- All methods of the wanted name. -/
def everything (wanted : String) : Selection := ⟨wanted, ⟨none, []⟩⟩

theorem trim_eq_self {c x : Char} (hc : isBlank c = false) (hx : isBlank x = false) (cs : List Char) :
    trim (c :: (cs ++ [x])) = c :: (cs ++ [x]) := by
  simp [trim, hc, hx]

theorem comments_remarkGap (c : Comment) : comments (remarkGap c.inside) = [c.chars] := by
  -- the line end before the comment is blank, and nothing but a line end is left behind it
  have hread : triviaComment ((remarkGap c.inside).dropWhile isBlank) = some (c.chars, ['\n']) := by
    have hdrop : (remarkGap c.inside).dropWhile isBlank =
        '/' :: '*' :: (c.inside ++ '*' :: '/' :: ['\n']) := rfl
    rw [hdrop, triviaComment, blockEnd_of_blockTail (blockTail_append c.isRemark _)]
    rfl
  rw [comments_of_some hread]
  rfl

theorem Method.commentText_lead (m : Method) : commentText m.lead = m.commentChars := by
  rw [lead, commentChars]
  cases m.comment with
  | none => rfl
  | some c =>
    have hchars : c.chars = '/' :: (('*' :: (c.inside ++ ['*'])) ++ ['/']) := by
      simp [Comment.chars]
    rw [Option.elim_some, Option.elim_some, commentText_eq_joined, comments_remarkGap, joined_singleton, hchars]
    exact trim_eq_self rfl rfl _

namespace Method

/-- The member that the trees of a method give. -/
def member (source : List Char) (m : Method) (rest : List Char) : Member where
  kind := .method
  name := some m.name.text
  span := ⟨place source (m.signature ++ rest), place source rest⟩
  trivia := ⟨place source (m.lead ++ (m.signature ++ rest)), place source (m.signature ++ rest)⟩

theorem textOf_name (m : Method) {rest : List Char} (hs : m.signature ++ rest <:+ source) :
    textOf source ⟨place source (m.signature ++ rest), place source ('(' :: (m.inner ++ ';' :: rest))⟩ =
      m.name.text := by
  rw [signature_append] at hs ⊢
  rw [textOf, slice_place hs]
  rfl

/-- A name starts with a capital letter, so it is not that of a constructor. -/
theorem memberKind_eq (owner : DeclarationKind) (m : Method) (span : Span) :
    memberKind owner .method (some m.name.text) [.node .memberName span []] = .method := by
  have hne : m.name.text ≠ "constructor" := by
    intro h
    have hchars := congrArg String.toList h
    rw [Name.text, String.toList_ofList] at hchars
    have hfirst : m.name.first = 'c' := (List.cons.inj hchars).1
    have hupper := m.name.isUpper
    rw [hfirst] at hupper
    simp at hupper
  simp [memberKind, hne, childPart?, Grammar.Tree.part]

theorem separatorEnd_semicolon {rest : List Char} (hs : ';' :: rest <:+ source) :
    separatorEnd source (place source (';' :: rest)) = place source rest := by
  rw [separatorEnd, dropBytes?_place hs, ← place_add (x := [';']) hs]
  rfl

theorem membersFrom_node (owner : DeclarationKind) (m : Method) {rest : List Char} (ts : List Grammar.Tree)
    (hs : m.lead ++ (m.signature ++ rest) <:+ source) :
    membersFrom source owner ⟨place source (m.lead ++ (m.signature ++ rest)), none⟩
        (m.node source rest :: separatorNode source ';' rest :: ts) =
      m.member source rest :: membersFrom source owner ⟨place source rest, none⟩ ts := by
  have hname := m.textOf_name ((List.suffix_append m.lead _).trans hs)
  have hend := separatorEnd_semicolon (m.semicolon_suffix hs)
  have hkind := m.memberKind_eq owner
    ⟨place source (m.signature ++ rest), place source ('(' :: (m.inner ++ ';' :: rest))⟩
  simp only [node, separatorNode, membersFrom, childPart?, List.find?, Grammar.Tree.part, Grammar.Tree.span,
    decide_true, Option.map_some, Option.getD_none, hname, hend, hkind, member]

theorem method?_member (m : Method) {rest : List Char} (hs : m.lead ++ (m.signature ++ rest) <:+ source)
    (wanted owner : String) :
    (m.member source rest).method? source (everything wanted) owner = some (m.record owner) := by
  have hsignature := slice_place ((List.suffix_append m.lead _).trans hs)
  have hlead := slice_place hs
  have hmethod : (m.member source rest).method source owner m.name.text = m.record owner := by
    rw [Member.method, leadingComment, member, hsignature, hlead, commentText_lead, record]
  rw [Member.method?, if_pos (by rfl)]
  have haccepts : (everything wanted).filter.accepts m.name.text = true := by
    simp [everything, NameFilter.accepts, NameFilter.excluded, NameFilter.included]
  rw [member, Option.filter_some_pos haccepts, Option.map_some, ← member, hmethod]

end Method

/-- The members of a body are its methods. -/
theorem methods_memberNodes (kind : DeclarationKind) (ms : List Method) {rest : List Char}
    (hs : methodChars rest ms <:+ source) (wanted owner : String) :
    (membersFrom source kind ⟨place source (methodChars rest ms), none⟩
      (memberNodes source rest ms)).filterMap (Member.method? source (everything wanted) owner) =
        ms.map (Method.record owner) := by
  induction ms with
  | nil => rfl
  | cons m ms ih =>
    have hmore := (List.suffix_append m.signature _).trans ((List.suffix_append m.lead _).trans hs)
    rw [methodChars, memberNodes, m.membersFrom_node kind _ hs, List.filterMap_cons,
      m.method?_member hs, List.map_cons, ih hmore]

/-- The declarations that are found in a forest of trees, in the order of the text. -/
def declarationsIn (source : List Char) (ts : List Grammar.Tree) : List Declaration :=
  (Grammar.Tree.preorderAll ts).filterMap (declaration? source)

theorem declarationsIn_nil : declarationsIn source [] = [] := rfl

theorem declarationsIn_cons (t : Grammar.Tree) (ts : List Grammar.Tree) : declarationsIn source (t :: ts) =
    (declaration? source t).toList ++ declarationsIn source t.children ++ declarationsIn source ts := by
  have hpreorder : Grammar.Tree.preorder t = t :: Grammar.Tree.preorderAll t.children := by
    cases t
    rfl
  rw [declarationsIn, Grammar.Tree.preorderAll, List.filterMap_append, hpreorder, List.filterMap_cons]
  cases declaration? source t <;> rfl

theorem declarationsIn_append (ts us : List Grammar.Tree) :
    declarationsIn source (ts ++ us) = declarationsIn source ts ++ declarationsIn source us := by
  induction ts with
  | nil => rfl
  | cons t ts ih =>
    simp only [List.cons_append, declarationsIn_cons, ih, List.append_assoc]

/-- The methods of the declarations that are found in a forest of trees. -/
def methodsIn (source : List Char) (s : Selection) (ts : List Grammar.Tree) : List SignatureDocs.Method :=
  (declarationsIn source ts).flatMap (Declaration.methods source s)

theorem methodsIn_append (s : Selection) (ts us : List Grammar.Tree) :
    methodsIn source s (ts ++ us) = methodsIn source s ts ++ methodsIn source s us := by
  rw [methodsIn, declarationsIn_append, List.flatMap_append]
  rfl

/-- The walk through the outline of a forest gives the methods of its declarations. -/
theorem methodsOf_eq_methodsIn {ts : List Grammar.Tree} {lo hi : Nat} (h : Forest source lo hi ts)
    (s : Selection) : methodsOf source s (outlineOf source ts) = methodsIn source s ts := by
  have hbare : (outlineOf source ts).declarations.map Declaration.bare = declarationsIn source ts := by
    rw [outlineOf_eq h]
    exact Nest.bare_rowsAll 0 ts
  -- the methods of a declaration do not depend on what is inside it
  rw [methodsOf_outlineOf h, methodsIn, ← hbare, List.flatMap_map]
  rfl

theorem declarationsIn_memberNodes (rest : List Char) (ms : List Method) :
    declarationsIn source (memberNodes source rest ms) = [] := by
  induction ms with
  | nil => rfl
  | cons m ms ih =>
    rw [memberNodes, declarationsIn_cons, declarationsIn_cons, ih]
    rfl

/-- Nothing else is declared in a declaration that has methods only. -/
theorem declarationsIn_declarationNode (rest : List Char) (kind : DeclarationKind) (span : Span) (name : Name)
    (ms : List Method) : declarationsIn source [declarationNode source rest kind span name ms] =
      (declaration? source (declarationNode source rest kind span name ms)).toList := by
  have hbody : declarationsIn source (bodyNodes source (closeChars rest) ms) = [] := by
    rw [bodyNodes, declarationsIn_cons, declarationsIn_memberNodes]
    rfl
  have hinside : declarationsIn source (declarationNode source rest kind span name ms).children = [] := by
    rw [declarationNode, Grammar.Tree.children, declarationsIn_cons, declarationsIn_cons]
    simp only [Grammar.Tree.children, hbody]
    rfl
  rw [declarationsIn_cons, hinside, declarationsIn_nil, List.append_nil, List.append_nil]

theorem declaration?_declarationNode {rest : List Char} (kind : DeclarationKind) (span : Span) (name : Name)
    (ms : List Method) (hs : name.chars ++ ' ' :: '\x7b' :: methodChars (closeChars rest) ms <:+ source) :
    declaration? source (declarationNode source rest kind span name ms) =
      some ⟨kind, name.text, span,
        membersFrom source kind ⟨place source (methodChars (closeChars rest) ms), none⟩
          (memberNodes source (closeChars rest) ms), []⟩ := by
  have hname : textOf source ⟨place source (name.chars ++ ' ' :: '\x7b' :: methodChars (closeChars rest) ms),
      place source (' ' :: '\x7b' :: methodChars (closeChars rest) ms)⟩ = name.text := by
    rw [textOf, slice_place hs]
    rfl
  rw [declarationNode, declaration?]
  simp only [childPart?, List.find?, Grammar.Tree.part, decide_true, Option.map_some, Grammar.Tree.span, hname]
  rfl

theorem methodsIn_declarationNode {rest : List Char} (kind : DeclarationKind) (span : Span) (name : Name)
    (ms : List Method) (hs : name.chars ++ ' ' :: '\x7b' :: methodChars (closeChars rest) ms <:+ source)
    (wanted : String) :
    methodsIn source (everything wanted) [declarationNode source rest kind span name ms] =
      (Item.declaration kind name ms).records wanted := by
  have hinside := (List.suffix_append (name.chars ++ [' ', '\x7b']) _).trans (by simpa using hs)
  rw [methodsIn, declarationsIn_declarationNode, declaration?_declarationNode kind span name ms hs,
    Option.toList_some, List.flatMap_singleton, Declaration.methods, Item.records]
  refine ite_congr rfl (fun hwanted => ?_) (fun _ => rfl)
  rw [← hwanted]
  exact methods_memberNodes kind ms hinside name.text name.text

theorem Follows.items {rest : List Char} (hrest : Follows rest) (is : List Item) :
    Follows (itemChars is ++ rest) := by
  cases is with
  | nil => exact hrest
  | cons i is =>
    rw [itemChars, List.append_assoc]
    cases i with
    | declaration kind name ms =>
      rw [Item.declaration_append]
      cases kind <;> exact ⟨rfl, rfl⟩
    | scope name items =>
      rw [Item.scope_append]
      exact ⟨rfl, rfl⟩

/-- The text of an item ends with its line. -/
theorem Item.append_eq (i : Item) (gap rest : List Char) :
    ∃ xs, xs ≠ [] ∧ gap ++ (i.chars ++ rest) = xs ++ '\n' :: rest := by
  obtain ⟨xs, hne, hchars⟩ := i.chars_eq
  exact ⟨gap ++ xs, by simp [hne], by simp [hchars]⟩

theorem Item.line_suffix (i : Item) {gap rest : List Char} (hs : gap ++ (i.chars ++ rest) <:+ source) :
    '\n' :: rest <:+ source := by
  obtain ⟨xs, -, heq⟩ := i.append_eq gap rest
  rw [heq] at hs
  exact (List.suffix_append xs _).trans hs

theorem Item.place_line (i : Item) {gap rest : List Char} (hs : gap ++ (i.chars ++ rest) <:+ source) :
    place source (gap ++ (i.chars ++ rest)) < place source ('\n' :: rest) := by
  obtain ⟨xs, hne, heq⟩ := i.append_eq gap rest
  rw [heq] at hs ⊢
  exact place_lt hs hne

theorem line_suffix (is : List Item) {rest : List Char} (hs : '\n' :: (itemChars is ++ rest) <:+ source) :
    '\n' :: rest <:+ source := by
  induction is with
  | nil => exact hs
  | cons i is ih =>
    rw [itemChars, List.append_assoc] at hs
    have hline : ['\n'] ++ (i.chars ++ (itemChars is ++ rest)) <:+ source := hs
    exact ih (i.line_suffix hline)

/-- A class or interface is read as a statement, and its methods are found in it. -/
theorem takes_declaration (kind : DeclarationKind) (name : Name) (ms : List Method) {gap rest : List Char}
    {line : Bool} (hgap : IsGap gap line) (hrest : Follows rest)
    (hs : gap ++ ((Item.declaration kind name ms).chars ++ rest) <:+ source) :
    ∃ ts, Takes (rules d) (.phrase .statement)
        (.before source (gap ++ ((Item.declaration kind name ms).chars ++ rest))) ts
        (.before source ('\n' :: rest)) ∧
      ∀ wanted, methodsIn source (everything wanted) ts = (Item.declaration kind name ms).records wanted := by
  rw [Item.declaration_append] at hs ⊢
  have hname := (List.suffix_append (openingChars kind) _).trans ((List.suffix_append gap _).trans hs)
  have htakes : ∃ span, Takes (rules d) (.phrase .statement) (.before source (gap ++ (openingChars kind ++
      (name.chars ++ ' ' :: '\x7b' :: methodChars (closeChars ('\n' :: rest)) ms))))
      [declarationNode source ('\n' :: rest) kind span name ms] (.before source ('\n' :: rest)) := by
    cases kind with
    | interfaceKind => exact takes_interface name ms hgap hs
    | classKind => exact takes_class name ms hgap hrest hs
  obtain ⟨span, htakes⟩ := htakes
  exact ⟨_, htakes, methodsIn_declarationNode kind span name ms hname⟩

/-- A block is read if the statements in it are. -/
theorem takes_block {inside rest : List Char} {ts : List Grammar.Tree} (hrest : Follows rest)
    (hs : ' ' :: '\x7b' :: inside <:+ source) (hend : closeChars ('\n' :: rest) <:+ source)
    (htakes : Takes (rules d) (.many (.phrase .statement)) (.before source inside) ts
      (.before source (closeChars ('\n' :: rest)))) :
    Takes (rules d) (.phrase (.block true)) (.before source (' ' :: '\x7b' :: inside)) ts
      (.before source ('\n' :: rest)) := by
  have hbrace : (markSign '\x7b').Shows (rules d) (.before source (' ' :: '\x7b' :: inside)) []
      (.before source inside) := shows_mark rfl rfl (by simp) isGap_space hs
  have hopen : Takes (rules d) (mark "\x7b") _ [] _ := hbrace.takes_token rfl
  have hclose : Takes (rules d) (mark "\x7d") _ [] _ := (shows_close hend).takes_token rfl
  have hscan : Rule.scan (rules d) [lineSign] 200 (closing true) 0 =
      some (.takes [] 0) := by
    cases d <;> rfl
  have hnext := (List.suffix_append ['\n', '\x7d'] _).trans hend
  have hclosing : Takes (rules d) (closing true) (.before source ('\n' :: rest)) [] _ :=
    (Row.cons [] (shows_following hrest hnext (.before source rest)) (.nil _)).takes_of_scan 200 hscan
  have hblock := (hopen.both (htakes.both hclose)).both hclosing
  rw [List.append_nil, List.append_nil, List.nil_append] at hblock
  exact hblock.phrase

/-- A namespace is read if its block is, and has the trees of the block. -/
theorem takes_scope (name : Name) {gap inside rest : List Char} {line : Bool} {ts : List Grammar.Tree}
    (hgap : IsGap gap line) (hrest : rest <:+ inside)
    (hs : gap ++ (scopeChars ++ (name.chars ++ ' ' :: '\x7b' :: inside)) <:+ source)
    (htakes : Takes (rules d) (.phrase (.block true)) (.before source (' ' :: '\x7b' :: inside)) ts
      (.before source rest)) :
    Takes (rules d) (.phrase .statement)
      (.before source (gap ++ (scopeChars ++ (name.chars ++ ' ' :: '\x7b' :: inside)))) ts
      (.before source rest) := by
  have hopen (text : List Char) : scopeChars ++ text = "namespace".toList ++ ' ' :: text := rfl
  rw [hopen] at hs ⊢
  have hname := (List.suffix_append "namespace".toList _).trans ((List.suffix_append gap _).trans hs)
  have hbrace := (List.suffix_append (' ' :: name.chars) _).trans hname
  have hscan : Rule.scan (rules d) [wordSign "namespace" line, nameSign false, phraseSign (.block true) '\x7b']
      200 (.phrase .statement) 0 = some (.takes [.given 2] 3) := by
    cases d <;> cases line <;> rfl
  have hword : (wordSign "namespace" line).Shows (rules d) _ [] _ :=
    shows_word rfl rfl (by cases line <;> rfl) rfl hgap hs
  let row := Row.cons [] hword <|
    .cons [] (name.shows isGap_space rfl hname) <|
    .cons ts (shows_phrase rfl rfl isGap_space hbrace hrest htakes) (.nil _)
  rw [← List.append_nil ts]
  exact row.takes_of_scan 200 hscan

theorem refuses_close {rest : List Char} (hs : closeChars rest <:+ source) :
    Refuses (rules d) (.phrase .statement) (.before source (closeChars rest)) := by
  have hscan : Rule.scan (rules d) [lineMarkSign '\x7d'] 200 (.phrase .statement) 0 = some .refuses := by
    cases d <;> rfl
  exact (Row.cons [] (shows_close hs) (.nil _)).refuses_of_scan 200 hscan

mutual

/-- An item is read as a statement, and its methods are found in it. -/
theorem takes_item : (i : Item) → ∀ {gap rest : List Char} {line : Bool}, IsGap gap line → Follows rest →
    gap ++ (i.chars ++ rest) <:+ source →
    ∃ ts, Takes (rules d) (.phrase .statement) (.before source (gap ++ (i.chars ++ rest))) ts
        (.before source ('\n' :: rest)) ∧
      ∀ wanted, methodsIn source (everything wanted) ts = i.records wanted
  | .declaration kind name ms, _, _, _, hgap, hrest, hs => takes_declaration kind name ms hgap hrest hs
  | .scope name items, gap, rest, line, hgap, hrest, hs => by
    rw [Item.scope_append] at hs ⊢
    have hname := (List.suffix_append scopeChars _).trans ((List.suffix_append gap _).trans hs)
    have hbrace := (List.suffix_append name.chars _).trans hname
    have hinside := (List.suffix_append [' ', '\x7b'] _).trans hbrace
    have hend := line_suffix items hinside
    -- the statements of the block go on up to its brace, with which no statement starts
    have hfollows : Follows ('\x7d' :: '\n' :: rest) := ⟨rfl, rfl⟩
    have hstop : ∀ g, g = ['\n'] ∨ g = ['\n'] →
        Refuses (rules d) (.phrase .statement) (.before source (g ++ '\x7d' :: '\n' :: rest)) := by
      rintro g (rfl | rfl) <;> exact refuses_close hend
    obtain ⟨g, ts, hg, hts, hfound⟩ := takes_items items isGap_line hfollows hstop hinside
    obtain rfl : g = ['\n'] := hg.elim id id
    have hnext : '\n' :: rest <:+ '\n' :: (itemChars items ++ '\x7d' :: '\n' :: rest) :=
      (List.suffix_cons '\x7d' _).trans
        ((List.suffix_append (itemChars items) _).trans (List.suffix_cons '\n' _))
    exact ⟨ts, takes_scope name hgap hnext hs (takes_block hrest hbrace hend hts), hfound⟩

/-- The items of a block or file are read one after another, up to text that is no statement. -/
theorem takes_items : (is : List Item) → ∀ {gap rest : List Char} {line : Bool}, IsGap gap line →
    Follows rest →
    (∀ g, g = gap ∨ g = ['\n'] → Refuses (rules d) (.phrase .statement) (.before source (g ++ rest))) →
    gap ++ (itemChars is ++ rest) <:+ source →
    ∃ g ts, (g = gap ∨ g = ['\n']) ∧
      Takes (rules d) (.many (.phrase .statement)) (.before source (gap ++ (itemChars is ++ rest))) ts
        (.before source (g ++ rest)) ∧
      ∀ wanted, methodsIn source (everything wanted) ts = itemRecords wanted is
  | [], gap, _, _, _, _, hstop, _ => ⟨gap, [], .inl rfl, .many_refuses (hstop gap (.inl rfl)), fun _ => rfl⟩
  | i :: is, gap, rest, line, hgap, hrest, hstop, hs => by
    rw [itemChars, List.append_assoc] at hs ⊢
    obtain ⟨ts, hts, hfound⟩ := takes_item i hgap (hrest.items is) hs
    have hnext := i.line_suffix hs
    -- from the second item on the gap is the end of the line before
    obtain ⟨g, us, hg, hus, hmore⟩ := takes_items is isGap_line hrest
      (fun g hg => hstop g (.inr (hg.elim id id))) hnext
    refine ⟨g, ts ++ us, .inr (hg.elim id id), hts.many_cons (i.place_line hs) hus, fun wanted => ?_⟩
    rw [methodsIn_append, hfound, hmore, itemRecords]

end

theorem refuses_finish {gap : List Char} (hgap : gap = [] ∨ gap = ['\n']) :
    Refuses (rules d) (.phrase .statement) (.before source gap) := by
  have hscan : Rule.scan (rules d) [finishSign] 200 (.phrase .statement) 0 = some .refuses := by
    cases d <;> rfl
  exact (Row.cons [] (shows_finish hgap (.before source [])) (.nil _)).refuses_of_scan 200 hscan

/-- No script line stands before items. -/
theorem scriptLine_itemChars (is : List Item) : scriptLine (itemChars is) = none := by
  cases is with
  | nil => rfl
  | cons i is =>
    rw [itemChars]
    cases i with
    | declaration kind name ms =>
      rw [Item.declaration_append]
      cases kind <;> rfl
    | scope name items =>
      rw [Item.scope_append]
      rfl

/-- The text of a forest is read as a file, and its methods are found in it. -/
theorem takes_program (is : List Item) :
    ∃ ts c, Takes (rules d) program (.start (itemChars is)) ts c ∧
      ∀ wanted, methodsIn (itemChars is) (everything wanted) ts = itemRecords wanted is := by
  have hfollows : Follows [] := ⟨rfl, rfl⟩
  have hstop : ∀ g, g = [] ∨ g = ['\n'] →
      Refuses (rules d) (.phrase .statement) (.before (itemChars is) (g ++ [])) := by
    intro g hg
    rw [List.append_nil]
    exact refuses_finish hg
  have hs : [] ++ itemChars is <:+ itemChars is := List.suffix_rfl
  have hitems : [] ++ (itemChars is ++ []) <:+ itemChars is := by
    rw [List.append_nil]
    exact hs
  have hleads : leads (itemChars is) = true := by
    rw [← List.append_nil (itemChars is)]
    exact (hfollows.items is).1
  obtain ⟨g, ts, hg, hts, hfound⟩ := takes_items (d := d) is isGap_nil hfollows hstop hitems
  rw [List.append_nil, List.append_nil, List.nil_append] at hts
  have hscript : Refuses (rules d) (.token .scriptLine) (.before (itemChars is) (itemChars is)) :=
    .token (Cursor.before_read?_eq_none isGap_nil hleads hs (scriptLine_itemChars is))
  have hfinish : finishSign.Shows (rules d) (.before (itemChars is) g) [] (.before (itemChars is) []) :=
    shows_finish hg _
  have hend : Takes (rules d) (.token .finish) _ [] _ := .token (hfinish.verdict .finish .idles rfl)
  have hprogram := (Takes.either_right hscript (.nothing _ _)).both (hts.both hend)
  rw [List.nil_append, List.append_nil] at hprogram
  have hstart : Cursor.before (itemChars is) (itemChars is) = .start (itemChars is) := by
    rw [Cursor.before, place, Nat.sub_self]
    rfl
  rw [hstart] at hprogram
  exact ⟨ts, _, hprogram, hfound⟩

/-- Writing a forest of namespaces, interfaces and classes and taking methods from the text gives back, for every
name, the methods of the interfaces and classes of that name, in the order in which they were written, each with
its signature and comment as written. -/
theorem extract_itemChars (d : Dialect) (items : List Item) (wanted : String) :
    extract d (itemChars items) ⟨wanted, ⟨none, []⟩⟩ = .ok (itemRecords wanted items) := by
  obtain ⟨ts, c, htakes, hfound⟩ := takes_program (d := d) items
  obtain ⟨r, hread⟩ := readFile_of_takes htakes
  have hmethods := methodsOf_eq_methodsIn (readFile_forest hread) (everything wanted)
  rw [hfound] at hmethods
  rw [extract, Outline.read, hread]
  exact congrArg Except.ok hmethods

example : ∃ items : List Item,
    itemChars items =
      "namespace N \x7b\ninterface A \x7b\n/*c*/\nM(P: T, Q?: U): R;\nK(): A;\n\x7d\n\x7d\n".toList ∧
    itemRecords "A" items =
      [⟨"A", "M", "M(P: T, Q?: U): R;", "/*c*/"⟩, ⟨"A", "K", "K(): A;", ""⟩] :=
  let letter (c : Char) (h : c.isUpper = true) : Name := ⟨c, [], h, by simp⟩
  let first : Method := ⟨some ⟨['c'], by decide, by decide⟩, letter 'M' rfl,
    [⟨letter 'P' rfl, false, letter 'T' rfl⟩, ⟨letter 'Q' rfl, true, letter 'U' rfl⟩], letter 'R' rfl⟩
  ⟨[.scope (letter 'N' rfl) [.declaration .interfaceKind (letter 'A' rfl)
    [first, ⟨none, letter 'K' rfl, [], letter 'A' rfl⟩]]], rfl, rfl⟩

end SignatureDocs.Written
