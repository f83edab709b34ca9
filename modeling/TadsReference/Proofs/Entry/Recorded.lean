import TadsReference.Proofs.Entry.Recognisers

/-!
# What a recognised line does with the waiting comment

A line either completes a block comment, which is kept, or it records at most one entry. Then the
entry takes the comment that is waiting, and no comment is waiting behind it. A line without an
entry may drop the comment or leave it waiting, but never puts another one in its place.
-/

namespace TadsReference

namespace Entry

/-- The description that an entry gives to what it declares. -/
def description? : Entry → Option String
  | fileDescription _ => none
  | declaration _ description _ _ => some description
  | enumGroup description _ _ => some description

/-- The line at which an entry declares something. -/
def line? : Entry → Option Nat
  | fileDescription _ => none
  | declaration _ _ line _ => some line
  | enumGroup _ line _ => some line

end Entry

namespace LineForm

/-- The comment that a line of this form completes, with the reader behind it. -/
def completed? (reader : Reader) : LineForm → Option (String × Reader)
  | .comment rest =>
      (reader.gather BlockComment.continueOn (BlockComment.start rest)).toOption
  | _ => none

end LineForm

namespace Context

/-- What a line that completes no comment makes of its context: it may record one entry, with the
comment that is waiting and with the number of the line. -/
inductive Records (context : Context) (line : Nat) : Option Entry → Context → Prop
  /-- The comment goes on waiting. -/
  | still {later : Context} (comment : later.comment = context.comment)
      (seen : later.commentSeen = context.commentSeen) : Records context line none later
  | takes {entry : Option Entry} {later : Context}
      (description : ∀ found ∈ entry, found.description? = some context.comment)
      (place : ∀ found ∈ entry, found.line? = some line)
      (comment : later.comment = "") (seen : later.commentSeen = context.commentSeen) :
      Records context line entry later

section Records

variable {context later : Context} {line : Nat} {entry : Option Entry}

theorem records_record (context : Context) (line : Nat) (found : Option (String × Declared)) :
    context.Records line (context.record line found).1 (context.record line found).2 := by
  refine .takes ?_ ?_ rfl rfl
  all_goals
    intro entry isEntry
    rcases Option.map_eq_some_iff.mp isEntry with ⟨declaration, _, rfl⟩
    rfl

/-- A block takes the comment as any other declaration does, and the members behind it are its
own. -/
theorem records_openBlock (context : Context) (line : Nat) (found : Option (String × Declared)) :
    context.Records line (context.openBlock line found).1 (context.openBlock line found).2 := by
  cases found with
  | none => exact records_record context line none
  | some declaration =>
      refine .takes ?_ ?_ rfl rfl
      all_goals
        rintro entry ⟨⟩
        rfl

theorem records_recordEnum (context : Context) (line : Nat) (found : Option (List String)) :
    context.Records line (context.recordEnum line found).1 (context.recordEnum line found).2 := by
  refine .takes ?_ ?_ rfl rfl
  all_goals
    intro entry isEntry
    rcases Option.map_eq_some_iff.mp isEntry with ⟨members, _, rfl⟩
    rfl

theorem records_idle (context : Context) (line : Nat) : context.Records line none context :=
  .still rfl rfl

/-- Entering or leaving a body does not matter to the comments. -/
theorem Records.enter (records : context.Records line entry later) (region : Region) :
    context.Records line entry { later with region } := by
  cases records with
  | still comment seen => exact .still comment seen
  | takes description place comment seen => exact .takes description place comment seen

theorem Records.of_leaveBody (records : context.leaveBody.Records line entry later) :
    context.Records line entry later := by
  cases records with
  | still comment seen => exact .still comment seen
  | takes description place comment seen => exact .takes description place comment seen

end Records

end Context

namespace Recognised

variable {context : Context} {line : Nat} {reader : Reader} {found : Recognised}

theorem records_of_ofLine {outcome : Option Entry × Context}
    (recognised : ofLine outcome reader = .ok found)
    (records : context.Records line outcome.1 outcome.2) :
    context.Records line found.entry found.context := by
  cases recognised
  exact records

theorem records_of_gathered {State Value : Type} {step : State → List Char → Progress State Value}
    {progress : Progress State Value} {finish : Value → Option Entry × Context}
    (recognised : gathered step progress finish reader = .ok found)
    (records : ∀ value, context.Records line (finish value).1 (finish value).2) :
    context.Records line found.entry found.context := by
  unfold gathered at recognised
  split at recognised
  · next value later _ =>
      cases recognised
      exact records value
  · contradiction

theorem records_of_definedMacro {rest : List Char}
    (recognised : definedMacro context line rest reader = .ok found) :
    context.Records line found.entry found.context := by
  unfold definedMacro at recognised
  split at recognised
  · exact records_of_ofLine recognised (context.records_record line _)
  · split at recognised
    · exact records_of_ofLine recognised (context.records_record line _)
    · exact records_of_ofLine recognised (context.records_record line _)
    · contradiction

end Recognised

namespace Context

variable {context : Context} {indent line : Nat} {reader : Reader} {found : Recognised}

/-- A method records itself, or nothing where members are not accepted or its parameters are broken
off. -/
theorem records_of_recogniseMethod {name : String} {rest : List Char} {interfaceOnly : Bool}
    (recognised :
      context.recogniseMethod indent line name rest interfaceOnly reader = .ok found) :
    context.Records line found.entry found.context := by
  unfold recogniseMethod at recognised
  split at recognised
  · apply Recognised.records_of_gathered recognised
    intro list
    cases list with
    | none => exact context.records_idle line
    | some list => exact context.records_record line _
  · exact Recognised.records_of_ofLine recognised (context.records_idle line)

/-- A call records at most one declaration, whatever it stands for. -/
theorem records_of_recogniseCall {name : String} {rest : List Char} {interfaceOnly : Bool}
    (recognised : context.recogniseCall indent line name rest interfaceOnly reader = .ok found) :
    context.Records line found.entry found.context := by
  unfold recogniseCall at recognised
  split at recognised
  · exact Recognised.records_of_ofLine recognised (context.records_openBlock line _)
  · split at recognised
    · exact Recognised.records_of_ofLine recognised (context.records_idle line)
    · split at recognised
      · apply Recognised.records_of_gathered recognised
        intro list
        have records := context.records_record line (functionNamed name list)
        dsimp only
        split
        · exact records
        · exact records.enter .functionBody
      · split at recognised
        · apply Recognised.records_of_gathered recognised
          exact fun list => context.records_record line (functionNamed name list)
        · exact records_of_recogniseMethod recognised

/-- A line that completes no comment leaves the waiting one alone, or takes or drops it. A line that
opens a comment is none of these unless the comment is broken off, and then the line fails. -/
theorem records_of_recognise {sourceText : List Char} {form : LineForm}
    (recognised : context.recognise indent line sourceText reader form = .ok found)
    (noComment : form.completed? reader = none) :
    context.Records line found.entry found.context := by
  cases form with
  | intrinsicClass rest =>
      exact Recognised.records_of_ofLine recognised (context.records_openBlock line _)
  | functionSet =>
      exact Recognised.records_of_ofLine recognised
        ((context.records_idle line).enter .functionSet)
  | classHead rest =>
      exact Recognised.records_of_ofLine recognised
        (context.leaveBody.records_openBlock line _).of_leaveBody
  | grammarRule rest =>
      simp only [recognise] at recognised
      split at recognised
      · exact Recognised.records_of_ofLine recognised
          (context.leaveBody.records_record line _).of_leaveBody
      · apply Recognised.records_of_gathered recognised
        exact fun rule => (context.leaveBody.records_openBlock line _).of_leaveBody
  | modifyBlock rest =>
      exact Recognised.records_of_ofLine recognised
        (context.leaveBody.records_openBlock line _).of_leaveBody
  | comment rest =>
      simp only [recognise, Recognised.gathered] at recognised
      split at recognised
      · next gathered =>
          rw [LineForm.completed?, gathered] at noComment
          contradiction
      · contradiction
  | enumeration rest =>
      exact Recognised.records_of_ofLine recognised (context.records_recordEnum line _)
  | macroDefinition rest => exact Recognised.records_of_definedMacro recognised
  | template name rest =>
      apply Recognised.records_of_gathered recognised
      exact fun body => (context.leaveBody.records_record line _).of_leaveBody
  | assignment name interfaceOnly =>
      simp only [recognise, recogniseProperty] at recognised
      split at recognised
      · exact Recognised.records_of_ofLine recognised (context.records_record line _)
      · exact Recognised.records_of_ofLine recognised (context.records_idle line)
  | objectHead name rest transient =>
      simp only [recognise] at recognised
      split at recognised
      · exact Recognised.records_of_ofLine recognised (context.records_openBlock line _)
      · exact Recognised.records_of_ofLine recognised (context.records_idle line)
  | call name rest interfaceOnly => exact records_of_recogniseCall recognised
  | braced name rest interfaceOnly => exact records_of_recogniseMethod recognised
  | other => exact Recognised.records_of_ofLine recognised (context.records_idle line)

/-- A line that completes a comment keeps it. -/
theorem recognise_of_completed? (context : Context) (indent line : Nat) (sourceText : List Char)
    {form : LineForm} {text : String} {later : Reader}
    (completed : form.completed? reader = some (text, later)) :
    context.recognise indent line sourceText reader form =
      .ok ⟨(context.keepComment text).1, (context.keepComment text).2, later⟩ := by
  cases form with
  | comment rest =>
      rw [LineForm.completed?] at completed
      rw [recognise, Recognised.gathered]
      rcases gathered : reader.gather BlockComment.continueOn (BlockComment.start rest)
        with cause | ⟨value, behind⟩
      · rw [gathered] at completed
        contradiction
      · rw [gathered] at completed
        cases completed
        rfl
  | _ => contradiction

end Context

end TadsReference
