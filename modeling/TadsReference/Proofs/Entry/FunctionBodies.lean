import Mathlib.Data.List.TakeWhile
import TadsReference.Proofs.Entry.CutShort
import TadsReference.Proofs.Entry.Kinds
import TadsReference.Proofs.Graph.Additions
import TadsReference.Proofs.Text.Tokens

/-!
# Bodies of functions

The statements of a function look like members and objects at times. While the body of a function is
open, indented lines that begin with a word declare nothing and are taken one at a time, and no line
at all declares a member: `opaqueBody_of_functionBody`.
-/

namespace TadsReference

open Identifier (IsRun)

variable {isHeader languageSeen : Bool} {context : Context} {line : SourceLine} {reader : Reader}

/-! ### Calls that define messages -/

namespace MessageKind

/-- A text begins with a call of a kind. There may be blanks before the parenthesis. -/
def Opens (kind : MessageKind) (text : List Char) : Prop :=
  ∃ gap after, text = kind.callName.toList ++ (gap ++ '(' :: after) ∧
    ∀ character ∈ gap, Text.isBlank character = true

end MessageKind

namespace MessageCall

/-- A call that defines a message stands in a text, and its name does not continue a word. -/
def StandsIn (text : List Char) : Prop :=
  ∃ before call, text = before ++ call ∧ (∃ kind : MessageKind, kind.Opens call) ∧
    before.getLast?.any Text.isWordCharacter = false

variable {text : List Char}

/-- The search looks at both names of calls, and blanks may stand between the name and the
parenthesis. -/
theorem isSome_opening?_iff :
    (opening? text).isSome = true ↔ ∃ kind : MessageKind, kind.Opens text := by
  have mem (kind : MessageKind) : kind ∈ [MessageKind.basic, MessageKind.default] := by
    cases kind <;> simp
  simp only [opening?, List.findSome?_isSome_iff, mem, true_and]
  refine exists_congr fun kind => ⟨fun opens => ?_, ?_⟩
  · split at opens
    · next starts =>
        obtain ⟨tail, rfl⟩ := List.isPrefixOf_iff_prefix.mp starts
        split at opens
        · next rest behind =>
            refine ⟨tail.takeWhile Text.isBlank, rest, ?_, ?_⟩
            · rw [← String.length_toList, List.drop_left] at behind
              rw [← behind, Text.trimStart, List.takeWhile_append_dropWhile]
            · exact fun character => List.mem_takeWhile_imp
        · contradiction
    · contradiction
  · rintro ⟨gap, after, rfl, blank⟩
    have starts : kind.callName.toList.isPrefixOf
        (kind.callName.toList ++ (gap ++ '(' :: after)) = true :=
      List.isPrefixOf_iff_prefix.mpr (List.prefix_append _ _)
    have behind : Text.trimStart (gap ++ '(' :: after) = '(' :: after := by
      rw [Text.trimStart_append blank]
      rfl
    rw [if_pos starts, ← String.length_toList, List.drop_left, behind]
    rfl

/-- The search goes through all ends of a text and remembers the character before each of them, so
it finds a call just if one stands in the text. -/
theorem isSome_find?_iff (previous : Option Char) :
    (find? previous text).isSome = true ↔
      ∃ before call, text = before ++ call ∧ (∃ kind : MessageKind, kind.Opens call) ∧
        (before.getLast?.or previous).any Text.isWordCharacter = false := by
  induction text generalizing previous with
  | nil =>
      refine ⟨fun found => absurd found (by simp [find?]), ?_⟩
      rintro ⟨before, call, isNil, ⟨kind, gap, after, rfl, _⟩, _⟩
      simp at isNil
  | cons character rest ih =>
      have divided : (find? previous (character :: rest)).isSome = true ↔
          previous.any Text.isWordCharacter = false ∧
              (∃ kind : MessageKind, kind.Opens (character :: rest)) ∨
            (find? (some character) rest).isSome = true := by
        rw [find?, ← isSome_opening?_iff]
        cases previous.any Text.isWordCharacter <;>
          cases opening? (character :: rest) <;> simp
      rw [divided, ih (some character)]
      constructor
      · rintro (⟨apart, opens⟩ | ⟨before, call, rfl, opens, apart⟩)
        · exact ⟨[], character :: rest, rfl, opens, apart⟩
        · refine ⟨character :: before, call, rfl, opens, ?_⟩
          rw [← apart, List.getLast?_cons]
          cases before.getLast? <;> rfl
      · rintro ⟨before, call, shape, opens, apart⟩
        cases before with
        | nil =>
            obtain rfl : character :: rest = call := shape
            exact .inl ⟨apart, opens⟩
        | cons first before =>
            obtain ⟨rfl, rfl⟩ := List.cons.inj shape
            refine .inr ⟨before, call, rfl, opens, ?_⟩
            rw [← apart, List.getLast?_cons]
            cases before.getLast? <;> rfl

/-- The scan for calls misses none. -/
theorem find?_eq_none_iff : find? none text = none ↔ ¬StandsIn text := by
  rw [← Option.not_isSome_iff_eq_none, isSome_find?_iff]
  simp only [Option.or_none]
  rfl

end MessageCall

/-! ### Statements -/

/-- The words that are no names at the beginning of a line. -/
def keywords : List String :=
  ["transient", "class", "grammar", "VerbRule", "modify", "intrinsic", "enum"]

/-- The words that say at the beginning of a line what it declares. -/
def leadingWords : List String :=
  keywords ++ actionMacros

namespace SourceLine

/-- A line of a function's body: it is indented and begins with an identifier that leads no
declaration, is not a template, and calls no message. -/
structure IsStatement (line : SourceLine) : Prop where
  indented : line.shown.head? = some ' '
  word : ∃ word rest, Token.next? line.body = some (word, rest) ∧ IsRun word.toList ∧
    word ∉ leadingWords ∧ Token.peek rest ≠ "template"
  callsNoMessage : ¬MessageCall.StandsIn line.body

theorem IsStatement.body_ne_nil (statement : line.IsStatement) : line.body ≠ [] := by
  obtain ⟨word, rest, first, _⟩ := statement.word
  rintro empty
  rw [empty] at first
  contradiction

/-- A statement has a blank in front of it, which is not part of the text by which it is
classified. -/
theorem IsStatement.indent_ne_zero (statement : line.IsStatement) : line.indent ≠ 0 := by
  have nonempty := statement.body_ne_nil
  obtain ⟨rest, shape⟩ : Text.trimEnd line.shown <+: line.shown := Text.trimEnd_prefix _
  have indented := statement.indented
  simp only [indent, body] at nonempty ⊢
  cases text : Text.trimEnd line.shown with
  | nil => simp [text] at nonempty
  | cons first others =>
      rw [← shape, text] at indented
      obtain rfl : first = ' ' := Option.some.inj indented
      have shorter := (List.dropWhile_sublist (l := others) (· == ' ')).length_le
      simp only [List.dropWhile_cons, beq_self_eq_true, if_true, List.length_cons]
      omega

end SourceLine

namespace LineForm

/-- The forms that a statement may have. -/
inductive OfStatement : LineForm → Prop
  | assignment (name : String) : OfStatement (.assignment name false)
  | objectHead (name : String) (rest : List Char) : OfStatement (.objectHead name rest false)
  | call {name : String} (rest : List Char) (noAction : name ∉ actionMacros) :
      OfStatement (.call name rest false)
  | braced (name : String) (rest : List Char) : OfStatement (.braced name rest false)
  | other : OfStatement .other

end LineForm

/-- What begins with a name is classified by the token behind the name. -/
theorem LineShape.ofFirst_of_word {word : String} (isRun : IsRun word.toList)
    (noKeyword : word ∉ keywords) (indent : Nat) (transient : Bool) (rest : List Char) :
    ofFirst isHeader indent transient word rest = ofName isHeader indent transient word rest := by
  have noComment : word ≠ "/*" := isRun.ne ⟨'/', by decide, by decide⟩
  have noDirective : word ≠ "#" := isRun.ne ⟨'#', by decide, by decide⟩
  simp only [keywords, List.mem_cons, List.not_mem_nil, or_false, not_or] at noKeyword
  unfold ofFirst
  split <;> simp_all

/-- A line that begins with an identifier, but with no word that leads a declaration, has the form
that the tokens behind the identifier give it. No such form closes a body. -/
theorem LineShape.ofLine_of_word {body rest : List Char} {word : String} (isHeader : Bool)
    (indent : Nat)
    (first : Token.next? body = some (word, rest)) (isRun : IsRun word.toList)
    (leadsNothing : word ∉ leadingWords) (noTemplate : Token.peek rest ≠ "template") :
    (ofLine isHeader indent body).closesBody = false ∧
      (ofLine isHeader indent body).form.OfStatement := by
  have noSlashes : word ≠ "//" := isRun.ne ⟨'/', by decide, by decide⟩
  have noBrace : word ≠ "\x7d" := isRun.ne ⟨'\x7d', by decide, by decide⟩
  rw [leadingWords, List.mem_append, not_or] at leadsNothing
  obtain ⟨noKeyword, noAction⟩ := leadsNothing
  have noTransient : word ≠ "transient" := by
    rintro rfl
    exact noKeyword (by decide)
  have named : ofLine isHeader indent body = ofName isHeader indent false word rest := by
    rw [ofLine_of_next? isHeader indent first noTransient, ofFirst_of_word isRun noKeyword]
  have noInterface : (word == "//" && indent == 4) = false := by
    simp [noSlashes]
  have noTemplateBehind : (Token.next rest).1 ≠ "template" := noTemplate
  rw [named, ofName]
  simp only [noInterface, Bool.false_eq_true, if_false]
  refine ⟨by simp [noBrace], ?_⟩
  split
  · exact .assignment word
  · split
    · exact .call _ noAction
    · split
      · exact .braced word _
      · split
        · simp_all
        · split
          · exact .objectHead word _
          · exact .other

/-- Within a function, none of these forms declares anything when it is indented: objects stand at
the left margin, and members only where members are accepted. -/
theorem Context.recognise_of_statement (inBody : context.region = .functionBody) {indent : Nat}
    (indented : indent ≠ 0) (number : Nat) (sourceText : List Char) (reader : Reader)
    {form : LineForm} (isStatement : form.OfStatement) :
    context.recognise indent number sourceText reader form = .ok ⟨none, context, reader⟩ := by
  have closed : context.acceptsMembers indent = false := by
    simp [acceptsMembers, inBody]
  cases isStatement with
  | assignment name =>
      simp [recognise, recogniseProperty, closed, Recognised.ofLine]
  | objectHead name rest =>
      simp [recognise, indented, Recognised.ofLine]
  | call rest noAction =>
      simp [recognise, recogniseCall, recogniseMethod, noAction, indented, inBody, closed,
        Recognised.ofLine]
  | braced name rest =>
      simp [recognise, recogniseMethod, closed, Recognised.ofLine]
  | other => rfl

/-- A statement leaves no more behind than that the language directory may have been declared. It
begins with a word that leads nothing, and what has the form of a statement is not recorded inside
of a body. -/
theorem LineOutcome.ofLine_of_statement (inBody : context.region = .functionBody)
    (statement : line.IsStatement) (isHeader languageSeen : Bool) (reader : Reader) :
    ∃ seen, ofLine isHeader languageSeen context line reader = quiet seen context reader := by
  obtain ⟨word, rest, first, isRun, leadsNothing, noTemplate⟩ := statement.word
  obtain ⟨staysInBody, isStatement⟩ := LineShape.ofLine_of_word isHeader line.indent
    first isRun leadsNothing noTemplate
  have ofBody : ∃ seen, ofBody isHeader languageSeen context line.indent line.body line reader =
      quiet seen context reader := by
    simp only [LineOutcome.ofBody, staysInBody, Bool.false_eq_true, if_false]
    split
    · exact ⟨languageSeen, rfl⟩
    · rw [context.recognise_of_statement inBody statement.indent_ne_zero line.number line.text
        reader isStatement]
      exact ⟨_, rfl⟩
  have noMessage : MessageCall.read line.body line.number reader = .ok (none, reader) := by
    rw [MessageCall.read, MessageCall.find?_eq_none_iff.mpr statement.callsNoMessage]
  obtain ⟨seen, ofBody⟩ := ofBody
  refine ⟨seen, ?_⟩
  rw [ofLine_of_filled statement.body_ne_nil isHeader languageSeen context fun _ => noMessage]
  exact ofBody

/-! ### Members -/

namespace Declared

/-- Whether what is declared is a property or a method. -/
def isMember : Declared → Bool
  | .property _ => true
  | .method _ _ => true
  | _ => false

end Declared

/-- An entry declares no method and no property. -/
def Entry.Memberless : Entry → Prop :=
  Declares fun _ declared => declared.isMember = false

namespace Context

variable {indent number : Nat} {found : Recognised} {name : String} {rest : List Char}
  {interfaceOnly : Bool}

theorem memberless_of_recogniseMethod (closed : context.acceptsMembers indent = false)
    (recognised :
      context.recogniseMethod indent number name rest interfaceOnly reader = .ok found) :
    ∀ entry ∈ found.entry, entry.Memberless := by
  simp only [recogniseMethod, closed, Bool.false_and, Bool.false_eq_true, if_false] at recognised
  exact Recognised.declares_of_silent recognised

/-- A call declares an action or a function at most where no members are accepted. Each of the
things that a call can stand for is looked at in turn, and only the last of them, a method, could be
a member. -/
theorem memberless_of_recogniseCall (closed : context.acceptsMembers indent = false)
    (recognised : context.recogniseCall indent number name rest interfaceOnly reader = .ok found) :
    ∀ entry ∈ found.entry, entry.Memberless := by
  unfold recogniseCall at recognised
  split at recognised
  · apply Recognised.declares_of_ofLine recognised
    apply declares_record
    intro declaration isAction
    obtain ⟨_, _, rfl⟩ := Option.map_eq_some_iff.mp isAction
    rfl
  · split at recognised
    · exact Recognised.declares_of_silent recognised
    · split at recognised
      · apply Recognised.declares_of_gathered recognised
        exact fun list => declares_functionNamed list fun _ => rfl
      · split at recognised
        · apply Recognised.declares_of_gathered recognised
          exact fun list => declares_functionNamed list fun _ => rfl
        · exact memberless_of_recogniseMethod closed recognised

/-- Where no members are accepted, no form of line declares one. Those forms that can stand for a
member are looked at one by one, and the others do not stand for members anywhere. -/
theorem memberless_of_recognise {sourceText : List Char} {form : LineForm}
    (closed : context.acceptsMembers indent = false)
    (recognised : context.recognise indent number sourceText reader form = .ok found) :
    ∀ entry ∈ found.entry, entry.Memberless := by
  cases form with
  | assignment name interfaceOnly =>
      simp only [recognise, recogniseProperty, closed, Bool.false_and, Bool.false_eq_true,
        if_false] at recognised
      exact Recognised.declares_of_silent recognised
  | call name rest interfaceOnly => exact memberless_of_recogniseCall closed recognised
  | braced name rest interfaceOnly => exact memberless_of_recogniseMethod closed recognised
  | _ =>
      intro entry isEntry
      have declares := mayDeclare_of_recognise recognised entry isEntry
      cases entry with
      | declaration =>
          cases declares
          all_goals rfl
      | _ => trivial

end Context

namespace LineShape

variable {indent : Nat} {transient : Bool} {token : String} {rest body : List Char}

theorem indent_of_closesBody_ofName
    (closes : (ofName isHeader indent transient token rest).closesBody = true) : indent = 0 := by
  simp only [ofName, Bool.and_eq_true, beq_iff_eq] at closes
  exact closes.2

theorem indent_of_closesBody_ofFirst
    (closes : (ofFirst isHeader indent transient token rest).closesBody = true) : indent = 0 := by
  rcases ofFirst_cases isHeader indent transient token rest with
    ⟨form, _, same⟩ | same | same
  · rw [same] at closes
    contradiction
  · rw [same] at closes
    exact indent_of_closesBody_ofName closes
  · rw [same] at closes
    exact indent_of_closesBody_ofName closes

/-- Only a brace at the left margin closes a body. -/
theorem indent_of_closesBody (closes : (ofLine isHeader indent body).closesBody = true) :
    indent = 0 := by
  obtain ⟨transient, text, _, same⟩ := exists_ofLine_eq_ofFirst isHeader indent body
  rw [same] at closes
  exact indent_of_closesBody_ofFirst closes

end LineShape

namespace LineOutcome

/-- The line may close the body of the function itself. Then it stands at the left margin, where no
members are accepted either. -/
theorem memberless_ofBody (inBody : context.region = .functionBody) (indent : Nat)
    (body : List Char) :
    ∀ entry ∈ (ofBody isHeader languageSeen context indent body line reader).entries,
      entry.Memberless := by
  let shape := LineShape.ofLine isHeader indent body
  let entered := if shape.closesBody then context.leaveBody else context
  have closed : entered.acceptsMembers indent = false := by
    by_cases closes : shape.closesBody = true
    · simp [Context.acceptsMembers, LineShape.indent_of_closesBody closes]
    · simp [entered, closes, Context.acceptsMembers, inBody]
  intro entry isEntry
  simp only [ofBody] at isEntry
  split at isEntry
  · contradiction
  · split at isEntry
    · next recognised =>
        exact Context.memberless_of_recognise closed recognised entry (Option.mem_toList.mp isEntry)
    · contradiction

/-- A line inside of a function's body declares no member, whatever it holds. Messages are no
members either, though they may be declared there. -/
theorem memberless_ofLine (inBody : context.region = .functionBody) :
    ∀ entry ∈ (ofLine isHeader languageSeen context line reader).entries,
      entry.Memberless := by
  intro entry isEntry
  simp only [ofLine] at isEntry
  split at isEntry
  · contradiction
  · split at isEntry
    · exact memberless_ofBody inBody _ _ entry isEntry
    · split at isEntry
      · contradiction
      · next read =>
          rcases List.mem_append.mp isEntry with isMessage | ofBody
          · exact MessageCall.declares_of_read (fun _ _ _ => rfl) read entry
              (Option.mem_toList.mp isMessage)
          · exact memberless_ofBody inBody _ _ entry ofBody

end LineOutcome

/-! ### Members of the graph -/

namespace Graph.Recording

variable {state : Recording} {shortName : String} {entry : Entry} {entries : List Entry}

/-- What an entry adds to the graph are members only if the entry declares one. Constants of an enum
and productions are none. -/
theorem memberKind?_of_mem_entryAdditions (noMember : entry.Memberless) {decl : Decl}
    (isAddition : decl ∈ state.entryAdditions shortName entry) : decl.memberKind? = none := by
  cases entry with
  | fileDescription text => contradiction
  | enumGroup description number members =>
      obtain ⟨name, _, rfl⟩ := List.mem_map.mp isAddition
      rfl
  | declaration name description number declared =>
      cases declared with
      | property interfaceOnly => contradiction
      | method parameters interfaceOnly => contradiction
      | classBlock head =>
          rcases mem_classAdditions_cases isAddition with rfl | ⟨_, rfl⟩
          · rfl
          · rfl
      | _ =>
          obtain rfl := List.mem_singleton.mp isAddition
          rfl

/-- Entries that declare no member add none to the graph. What an entry adds is known from what it
is written from, and declarations that are there keep their kinds. -/
theorem memberKind?_foldl (noMember : ∀ entry ∈ entries, entry.Memberless)
    (state : Recording) (index : Nat) (id : DeclId) :
    ((entries.foldl (add index shortName) state).graph.decl id).memberKind? =
      (state.graph.decl id).memberKind? := by
  induction entries generalizing state with
  | nil => rfl
  | cons entry entries ih =>
      obtain ⟨noMemberHere, noMemberLater⟩ := List.forall_mem_cons.mp noMember
      rw [List.foldl_cons, ih noMemberLater]
      have written := (adds_add state index shortName entry).written_decl id
      have kind {decl : Decl} (same : ((state.add index shortName entry).graph.decl id).written =
          decl.written) :
          ((state.add index shortName entry).graph.decl id).memberKind? = decl.memberKind? :=
        Decl.memberKind?_eq_of_head_eq (Decl.head_eq_of_skeleton_eq (congrArg (·.1) same))
      split at written
      · exact kind written
      · next outside =>
          rw [kind written, decl_of_size_le (Nat.le_of_not_lt outside), List.getD_eq_getElem?_getD]
          cases added : (state.entryAdditions shortName entry)[id - state.graph.decls.size]? with
          | none => rfl
          | some decl =>
              exact memberKind?_of_mem_entryAdditions noMemberHere (List.mem_of_getElem? added)

end Graph.Recording

/-! ### The full account -/

/-- A reader hands out lines one after the other, and stands elsewhere behind them. -/
inductive Reader.Reads : Reader → List SourceLine → Reader → Prop
  | nothing {reader : Reader} : Reads reader [] reader
  | line {reader behind later : Reader} {line : SourceLine} {lines : List SourceLine}
      (next : reader.nextLine = (.ok (some line), behind)) (rest : Reads behind lines later) :
      Reads reader (line :: lines) later

/-- A file is read behind statements as if they were not there. The induction goes along the
statements, and each of them leaves the context and the reader as if it had been blank. -/
theorem FileOutcome.ofLines_of_statements (inBody : context.region = .functionBody)
    {lines : List SourceLine} {later : Reader} (reads : reader.Reads lines later)
    (statements : ∀ line ∈ lines, line.IsStatement) (isHeader languageSeen : Bool) :
    ∃ seen, ofLines isHeader languageSeen context reader = ofLines isHeader seen context later := by
  induction reads generalizing languageSeen with
  | nothing => exact ⟨languageSeen, rfl⟩
  | @line reader behind later line lines next _ ih =>
      obtain ⟨statement, others⟩ := List.forall_mem_cons.mp statements
      obtain ⟨seenHere, quiet⟩ :=
        LineOutcome.ofLine_of_statement inBody statement isHeader languageSeen behind
      obtain ⟨seen, same⟩ := ih others seenHere
      refine ⟨seen, ?_⟩
      have complete : (LineOutcome.ofLine isHeader languageSeen context line behind).after =
          .ok (context, behind) := by
        rw [quiet]
        rfl
      rw [ofLines_of_complete next complete, quiet]
      exact same

/-- What holds while a body is open. -/
structure OpaqueBody (isHeader : Bool) (context : Context) : Prop where
  /-- A statement leaves no entry, and the context and the reader as they are. -/
  statement : ∀ languageSeen line reader, line.IsStatement →
    ∃ seen, LineOutcome.ofLine isHeader languageSeen context line reader =
      .quiet seen context reader
  /-- Any number of them may follow. -/
  statements : ∀ languageSeen reader lines later, reader.Reads lines later →
    (∀ line ∈ lines, line.IsStatement) →
      ∃ seen, FileOutcome.ofLines isHeader languageSeen context reader =
        FileOutcome.ofLines isHeader seen context later
  /-- The graph has the same members behind any line. -/
  members : ∀ languageSeen line reader index shortName (state : Graph.Recording) id,
    let entries := (LineOutcome.ofLine isHeader languageSeen context line reader).entries
    ((entries.foldl (Graph.Recording.add index shortName) state).graph.decl id).memberKind? =
      (state.graph.decl id).memberKind?

/-- The body of a function is opaque, in headers and in other files alike. -/
theorem opaqueBody_of_functionBody (isHeader : Bool) (inBody : context.region = .functionBody) :
    OpaqueBody isHeader context where
  statement languageSeen _ reader statement :=
    LineOutcome.ofLine_of_statement inBody statement isHeader languageSeen reader
  statements languageSeen _ _ _ reads statements :=
    FileOutcome.ofLines_of_statements inBody reads statements isHeader languageSeen
  members _ _ _ index _ state id :=
    Graph.Recording.memberKind?_foldl (LineOutcome.memberless_ofLine inBody) state index id

/-! ### A body -/

/-- The context behind the first line of a function. -/
def withinFunction : Context :=
  { Context.start with region := .functionBody }

/-- The lines of a body, the last of which looks like a property. -/
def lookAlikes : List SourceLine :=
  [⟨1, "    foo(bar) \x7b".toList, none⟩, ⟨2, "  lamp: Thing".toList, none⟩,
    ⟨3, "    lit = true".toList, none⟩]

/-- A reader of the lines of a body, which ends with the brace at the left margin. -/
def lookAlikesReader : Reader :=
  .ofContent "body.t" "    foo(bar) \x7b\n  lamp: Thing\n    lit = true\n\x7d\n".toUTF8.toList
    none none

/-- A body whose lines look like a call, an object and a property declares nothing of the kind. -/
theorem opaqueBody_lookAlikes :
    withinFunction.region = .functionBody ∧ (∀ line ∈ lookAlikes, line.IsStatement) ∧
      (∃ later, lookAlikesReader.Reads lookAlikes later) ∧ OpaqueBody false withinFunction := by
  refine ⟨rfl, ?_, ?_, opaqueBody_of_functionBody false rfl⟩
  · simp only [lookAlikes, List.forall_mem_cons]
    refine ⟨⟨rfl, ⟨"foo", "(bar) \x7b".toList, rfl, by decide, by decide, by decide⟩,
        MessageCall.find?_eq_none_iff.mp (by decide +kernel)⟩,
      ⟨rfl, ⟨"lamp", ": Thing".toList, rfl, by decide, by decide, by decide⟩,
        MessageCall.find?_eq_none_iff.mp (by decide +kernel)⟩,
      ⟨rfl, ⟨"lit", " = true".toList, rfl, by decide, by decide, by decide⟩,
        MessageCall.find?_eq_none_iff.mp (by decide +kernel)⟩, by simp⟩
  · exact ⟨_, .line (Prod.ext (by decide +kernel) rfl) (.line (Prod.ext (by decide +kernel) rfl)
      (.line (Prod.ext (by decide +kernel) rfl) .nothing))⟩

end TadsReference
