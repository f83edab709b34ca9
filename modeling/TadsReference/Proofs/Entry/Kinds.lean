import TadsReference.Proofs.Entry.BlockNames

/-!
# What lines declare

A line of a known form declares things of one kind: what `class` introduces is a class, what has a
colon behind its name is an object, and so on. A line that defines a macro gives it the name that
stands behind the directive, and whether a class or an object is an action follows from what else is
declared of it: `mayDeclare_of_recognise`.
-/

namespace TadsReference

namespace Entry

/-- Whether something holds of the name and the declaration of an entry, if it is one. -/
def Declares (holds : String → Declared → Prop) : Entry → Prop
  | .declaration name _ _ declared => holds name declared
  | _ => True

end Entry

/-- Whether the name of a base makes an object an action. -/
def namesAction (base : String) : Bool :=
  Text.containsText "Action".toList base.toList

/-- A class is an action only if it was written as a macro call. -/
def ClassHead.ActionFollows (head : ClassHead) : Prop :=
  head.macroCall = none → head.action = false

/-- An object is an action if and only if one of its bases makes it one. -/
def ObjectHead.ActionFollows (head : ObjectHead) : Prop :=
  head.action = head.bases.any namesAction

namespace Declared

/-- Whether a class or an object is an action follows from what else is declared of it. -/
def ActionFollows : Declared → Prop
  | .classBlock head => head.ActionFollows
  | .objectBlock head => head.ActionFollows
  | _ => True

end Declared

namespace LineForm

/-- What a line of a form may declare, and under which name if it is a macro. -/
inductive MayDeclare : LineForm → String → Declared → Prop
  | intrinsicClass (rest : List Char) (name : String) {head : ClassHead}
      (follows : head.ActionFollows) :
      MayDeclare (.intrinsicClass rest) name (.classBlock head)
  | classHead (rest : List Char) (name : String) {head : ClassHead}
      (follows : head.ActionFollows) :
      MayDeclare (.classHead rest) name (.classBlock head)
  | grammarRule (rest : List Char) (name : String) {head : ClassHead}
      (follows : head.ActionFollows) :
      MayDeclare (.grammarRule rest) name (.classBlock head)
  | modifyBlock (rest : List Char) (name : String) :
      MayDeclare (.modifyBlock rest) name .modifyBlock
  | macroDefinition {rest after : List Char} {name : String}
      (first : Token.next? rest = some (name, after)) (parameters : List String) (body : String) :
      MayDeclare (.macroDefinition rest) name (.macroDefinition parameters body)
  | template (name : String) (rest : List Char) (body : String) :
      MayDeclare (.template name rest) name (.template body)
  | assignment (name : String) (interfaceOnly : Bool) :
      MayDeclare (.assignment name interfaceOnly) name (.property interfaceOnly)
  | objectHead (name : String) (rest : List Char) (transient : Bool) {head : ObjectHead}
      (follows : head.ActionFollows) :
      MayDeclare (.objectHead name rest transient) name (.objectBlock head)
  | action (called name : String) (rest : List Char) (interfaceOnly : Bool) {head : ObjectHead}
      (follows : head.ActionFollows) :
      MayDeclare (.call called rest interfaceOnly) name (.objectBlock head)
  | function (called name : String) (rest : List Char) (interfaceOnly : Bool)
      (parameters : List String) :
      MayDeclare (.call called rest interfaceOnly) name (.function parameters)
  | method (called name : String) (rest : List Char) (interfaceOnly : Bool)
      (parameters : List String) :
      MayDeclare (.call called rest interfaceOnly) name (.method parameters interfaceOnly)
  | braced (called name : String) (rest : List Char) (interfaceOnly : Bool)
      (parameters : List String) :
      MayDeclare (.braced called rest interfaceOnly) name (.method parameters interfaceOnly)

theorem MayDeclare.actionFollows {form : LineForm} {name : String} {declared : Declared}
    (may : form.MayDeclare name declared) : declared.ActionFollows := by
  cases may <;> trivial

end LineForm

/-- The object that an action macro defines has a base that makes it an action. -/
theorem any_namesAction_of_mem_actionMacros :
    ∀ called ∈ actionMacros, (baseList (called.toList.drop 6)).any namesAction = true := by
  decide +kernel

/-! ### The text behind the indentation -/

namespace SourceLine

/-- The text by which a line is classified, without its indentation and the blanks at its end. -/
def body (line : SourceLine) : List Char :=
  (Text.trimEnd line.shown).dropWhile (· == ' ')

/-- How far a line is indented, counted in characters. -/
def indent (line : SourceLine) : Nat :=
  (Text.trimEnd line.shown).length - line.body.length

theorem isEmpty_of_filled {line : SourceLine} (filled : line.body ≠ []) :
    (Text.trimEnd line.shown).isEmpty = false := by
  rw [Bool.eq_false_iff]
  intro empty
  apply filled
  simp [body, List.isEmpty_iff.mp empty]

end SourceLine

/-- A line that defines no message is classified by the text behind its indentation. -/
theorem LineOutcome.ofLine_of_filled {line : SourceLine} {reader : Reader} (filled : line.body ≠ [])
    (isHeader languageSeen : Bool) (context : Context)
    (noMessage : isHeader = false →
      MessageCall.read line.body line.number reader = .ok (none, reader)) :
    ofLine isHeader languageSeen context line reader =
      ofBody isHeader languageSeen context line.indent line.body line reader := by
  simp only [SourceLine.body] at noMessage
  simp only [ofLine, SourceLine.isEmpty_of_filled filled, Bool.false_eq_true, if_false]
  cases isHeader with
  | true => rfl
  | false =>
      simp only [noMessage rfl]
      rfl

theorem LineShape.ofLine_of_next? {body rest : List Char} {token : String} (isHeader : Bool)
    (indent : Nat) (first : Token.next? body = some (token, rest))
    (noTransient : token ≠ "transient") :
    ofLine isHeader indent body = ofFirst isHeader indent false token rest := by
  simp only [ofLine, Token.next, first, Option.getD_some]

/-! ### Kinds of declarations -/

variable {holds : String → Declared → Prop} {context : Context} {indent line : Nat}
  {reader : Reader} {found : Recognised} {name : String} {rest : List Char} {interfaceOnly : Bool}

namespace Context

theorem declares_record {declaration : Option (String × Declared)}
    (all : ∀ declared ∈ declaration, holds declared.1 declared.2) :
    ∀ entry ∈ (context.record line declaration).1, entry.Declares holds := by
  intro entry isEntry
  obtain ⟨declared, isDeclared, rfl⟩ := Option.map_eq_some_iff.mp isEntry
  exact all declared isDeclared

end Context

namespace Recognised

theorem declares_of_ofLine {outcome : Option Entry × Context}
    (recognised : ofLine outcome reader = .ok found)
    (all : ∀ entry ∈ outcome.1, entry.Declares holds) :
    ∀ entry ∈ found.entry, entry.Declares holds := by
  cases recognised
  exact all

theorem declares_of_gathered {State Value : Type}
    {step : State → List Char → Progress State Value} {progress : Progress State Value}
    {finish : Value → Option Entry × Context}
    (recognised : gathered step progress finish reader = .ok found)
    (all : ∀ value, ∀ entry ∈ (finish value).1, entry.Declares holds) :
    ∀ entry ∈ found.entry, entry.Declares holds := by
  unfold gathered at recognised
  split at recognised
  · next value later _ =>
      cases recognised
      exact all value
  · contradiction

theorem declares_of_silent {later : Context}
    (recognised : ofLine (none, later) reader = .ok found) :
    ∀ entry ∈ found.entry, entry.Declares holds :=
  declares_of_ofLine recognised nofun

/-- A directive declares a macro under the name that stands behind it. -/
theorem declares_of_definedMacro
    (recognised : definedMacro context line rest reader = .ok found) :
    ∀ entry ∈ found.entry, entry.Declares (LineForm.macroDefinition rest).MayDeclare := by
  unfold definedMacro at recognised
  split at recognised
  · exact declares_of_silent recognised
  · next first =>
      split at recognised
      · apply declares_of_ofLine recognised
        apply Context.declares_record
        rintro _ ⟨⟩
        exact .macroDefinition first _ _
      · exact declares_of_silent recognised
      · contradiction

end Recognised

namespace Context

theorem declares_functionNamed (list : ParameterList.Result)
    (ofFunction : ∀ parameters, holds name (.function parameters)) :
    ∀ entry ∈ (context.record line (functionNamed name list)).1, entry.Declares holds := by
  apply declares_record
  intro declared isFunction
  obtain ⟨_, _, rfl⟩ := Option.map_eq_some_iff.mp isFunction
  exact ofFunction _

/-- Where members are accepted, a method is declared, and else nothing is. -/
theorem declares_of_recogniseMethod
    (ofMethod : ∀ name parameters, holds name (.method parameters interfaceOnly))
    (recognised :
      context.recogniseMethod indent line name rest interfaceOnly reader = .ok found) :
    ∀ entry ∈ found.entry, entry.Declares holds := by
  unfold recogniseMethod at recognised
  split at recognised
  · apply Recognised.declares_of_gathered recognised
    intro list
    cases list with
    | none => nofun
    | some list =>
        apply declares_record
        rintro _ ⟨⟩
        unfold methodNamed
        split
        · split <;> exact ofMethod _ _
        · exact ofMethod _ _
  · exact Recognised.declares_of_silent recognised

/-- A name with a parenthesis behind it declares an action, a function or a method, depending on the
name itself and on where it stands. -/
theorem declares_of_recogniseCall
    (recognised : context.recogniseCall indent line name rest interfaceOnly reader = .ok found) :
    ∀ entry ∈ found.entry,
      entry.Declares (LineForm.call name rest interfaceOnly).MayDeclare := by
  unfold recogniseCall at recognised
  split at recognised
  · next contained =>
      have isMacro : name ∈ actionMacros := List.contains_iff_mem.mp contained
      apply Recognised.declares_of_ofLine recognised
      apply declares_record
      intro declared isAction
      obtain ⟨_, _, rfl⟩ := Option.map_eq_some_iff.mp isAction
      exact .action _ _ _ _ (any_namesAction_of_mem_actionMacros _ isMacro).symm
  · split at recognised
    · exact Recognised.declares_of_silent recognised
    · split at recognised
      · apply Recognised.declares_of_gathered recognised
        exact fun list => declares_functionNamed list (.function _ _ _ _)
      · split at recognised
        · apply Recognised.declares_of_gathered recognised
          exact fun list => declares_functionNamed list (.function _ _ _ _)
        · exact declares_of_recogniseMethod (.method _ · _ _) recognised

/-- What a line declares is of the kind that its form stands for. The proof has a case for each
form, and reads off what the form records when it is complete. -/
theorem mayDeclare_of_recognise {sourceText : List Char} {form : LineForm}
    (recognised : context.recognise indent line sourceText reader form = .ok found) :
    ∀ entry ∈ found.entry, entry.Declares form.MayDeclare := by
  cases form with
  | intrinsicClass rest =>
      apply Recognised.declares_of_ofLine recognised
      apply declares_record
      intro declared isClass
      obtain ⟨_, _, rfl⟩ := Option.map_eq_some_iff.mp isClass
      exact .intrinsicClass _ _ fun _ => rfl
  | functionSet => exact Recognised.declares_of_silent recognised
  | classHead rest =>
      apply Recognised.declares_of_ofLine recognised
      apply declares_record
      intro declared isClass
      simp only [Option.mem_def, classHead?] at isClass
      split at isClass
      · contradiction
      · split at isClass
        · cases isClass
          refine .classHead _ _ fun noCall => ?_
          simpa using noCall
        · contradiction
  | grammarRule rest =>
      simp only [recognise] at recognised
      split at recognised
      · exact Recognised.declares_of_silent recognised
      · apply Recognised.declares_of_gathered recognised
        intro rule
        apply declares_record
        rintro _ ⟨⟩
        exact .grammarRule _ _ fun _ => rfl
  | modifyBlock rest =>
      apply Recognised.declares_of_ofLine recognised
      apply declares_record
      intro declared isModification
      obtain ⟨_, _, rfl⟩ := Option.map_eq_some_iff.mp isModification
      exact .modifyBlock _ _
  | comment rest =>
      apply Recognised.declares_of_gathered recognised
      intro text
      unfold keepComment
      split
      · rintro _ ⟨⟩
      · rintro _ ⟨⟩
        trivial
  | enumeration rest =>
      apply Recognised.declares_of_ofLine recognised
      intro entry isEntry
      obtain ⟨_, _, rfl⟩ := Option.map_eq_some_iff.mp isEntry
      trivial
  | macroDefinition rest => exact Recognised.declares_of_definedMacro recognised
  | template name rest =>
      apply Recognised.declares_of_gathered recognised
      intro body
      apply declares_record
      rintro _ ⟨⟩
      exact .template _ _ _
  | assignment name interfaceOnly =>
      simp only [recognise, recogniseProperty] at recognised
      split at recognised
      · apply Recognised.declares_of_ofLine recognised
        apply declares_record
        rintro _ ⟨⟩
        exact .assignment _ _
      · exact Recognised.declares_of_silent recognised
  | objectHead name rest transient =>
      simp only [recognise] at recognised
      split at recognised
      · apply Recognised.declares_of_ofLine recognised
        apply declares_record
        rintro _ ⟨⟩
        exact .objectHead _ _ _ rfl
      · exact Recognised.declares_of_silent recognised
  | call name rest interfaceOnly => exact declares_of_recogniseCall recognised
  | braced name rest interfaceOnly =>
      exact declares_of_recogniseMethod (.braced _ · _ _) recognised
  | other => exact Recognised.declares_of_silent recognised

end Context

/-! ### Entries of files -/

/-- A call of a message declares a message. -/
theorem MessageCall.declares_of_read (ofMessage : ∀ name kind text, holds name (.message kind text))
    {text : List Char} {number : Nat} {later : Reader} {message : Option Entry}
    (read : MessageCall.read text number reader = .ok (message, later)) :
    ∀ entry ∈ message, entry.Declares holds := by
  unfold MessageCall.read at read
  split at read
  · cases read
    nofun
  · split at read
    · cases read
      nofun
    · cases read
      nofun
    · split at read
      · contradiction
      · cases read
        rintro _ ⟨⟩
        exact ofMessage _ _ _

theorem Entry.Declares.imp {weaker : String → Declared → Prop}
    (weakens : ∀ name declared, holds name declared → weaker name declared) {entry : Entry}
    (declares : entry.Declares holds) : entry.Declares weaker := by
  cases entry with
  | declaration name description line declared => exact weakens name declared declares
  | _ => trivial

section Files

variable {isHeader languageSeen : Bool}
  (ofForm : ∀ (form : LineForm) name declared, form.MayDeclare name declared → holds name declared)
  (ofMessage : ∀ name kind text, holds name (.message kind text))

include ofForm

/-- What a line declares comes from its form, so the kinds of the form are all that can occur. -/
theorem LineOutcome.declares_ofBody {body : List Char} {line : SourceLine} :
    ∀ entry ∈ (ofBody isHeader languageSeen context indent body line reader).entries,
      entry.Declares holds := by
  intro entry isEntry
  simp only [ofBody] at isEntry
  split at isEntry
  · contradiction
  · split at isEntry
    · next recognised =>
        exact (Context.mayDeclare_of_recognise recognised entry (Option.mem_toList.mp isEntry)).imp
          (ofForm _)
    · contradiction

include ofMessage

/-- Along with its form, a line may have a message on it. -/
theorem LineOutcome.declares_ofLine {line : SourceLine} :
    ∀ entry ∈ (ofLine isHeader languageSeen context line reader).entries,
      entry.Declares holds := by
  intro entry isEntry
  simp only [ofLine] at isEntry
  split at isEntry
  · contradiction
  · split at isEntry
    · exact declares_ofBody ofForm entry isEntry
    · split at isEntry
      · contradiction
      · next read =>
          rcases List.mem_append.mp isEntry with isMessage | ofBody
          · exact MessageCall.declares_of_read ofMessage read entry (Option.mem_toList.mp isMessage)
          · exact declares_ofBody ofForm entry ofBody

/-- What holds of all that forms stand for, and of messages, holds of all that a file declares. -/
theorem FileOutcome.declares_ofLines :
    ∀ entry ∈ (ofLines isHeader languageSeen context reader).entries,
      entry.Declares holds := by
  fun_induction ofLines isHeader languageSeen context reader with
  | case1 => exact List.forall_mem_nil _
  | case2 => exact List.forall_mem_nil _
  | case3 _ _ _ _ _ _ _ _ _ _ ih =>
      intro entry isEntry
      rcases List.mem_append.mp isEntry with here | later
      · exact LineOutcome.declares_ofLine ofForm ofMessage entry here
      · exact ih entry later
  | case4 => exact LineOutcome.declares_ofLine ofForm ofMessage
  | case5 => exact LineOutcome.declares_ofLine ofForm ofMessage

end Files

end TadsReference
