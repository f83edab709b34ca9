import TadsReference.Page.Markdown
import TadsReference.Proofs.Entry.WrittenHeads
import TadsReference.Proofs.Graph.Flags
import TadsReference.Proofs.Graph.LoneLines

/-!
# Declarations on pages

The page of a class or an object shows its declaration as it would be written in a source file.
Reading that line gives back what the graph knows of it, unless the class was written as a macro
call or a name is no identifier: `restates_of_session`.
-/

namespace TadsReference.Graph

open Identifier (IsRun)

variable {graph : Graph} {id : DeclId}

/-! ### What can be read back -/

/-- A class or an object whose declaration can be read back. -/
structure Restatable (graph : Graph) (id : DeclId) : Prop where
  isBlock : (graph.decl id).isBlock = true
  noMacroCall : (graph.decl id).macroCall? = none
  name : IsRun (graph.name id).toList
  bases : ∀ base ∈ graph.baseNames id, IsRun base.toList
  declares : graph.baseNames id ≠ [] ∨ (graph.decl id).flags.intrinsic = true
  /-- No keyword is taken for the name of an object. -/
  free : (graph.decl id).kindLabel = "object" → graph.name id ∉ keywords

/-- A declaration says the same as a class or an object of a graph, of which it shows the bases as
they were written. -/
structure Restates (graph : Graph) (id : DeclId) (copy : Decl) : Prop where
  kind : copy.kindLabel = (graph.decl id).kindLabel
  name : copy.name = graph.name id
  bases : copy.bases = (graph.baseNames id).map .name
  flags : copy.flags = (graph.decl id).flags

/-! ### The text of a declaration -/

/-- What stands before the name. -/
def opening (decl : Decl) : String :=
  if decl.isClass then if decl.flags.intrinsic then "intrinsic class " else "class "
  else if decl.flags.transient then "transient " else ""

/-- The text of a declaration is made of what it is marked as, its name and its bases, unless the
class was written as a macro call. -/
theorem declarationText_eq (noMacroCall : (graph.decl id).macroCall? = none) :
    Markdown.declarationText graph (graph.decl id) =
      opening (graph.decl id) ++ graph.name id ++ writtenBases (graph.baseNames id) := by
  have noCall : (graph.decl id).class?.bind (·.macroCall) = none := noMacroCall
  have bases : (if (graph.decl id).bases.isEmpty then ""
      else ": " ++ Text.join ", " ((graph.decl id).bases.map graph.baseName)) =
        writtenBases (graph.baseNames id) := by
    simp [writtenBases, baseNames]
  simp only [Markdown.declarationText, noCall, bases, name]
  cases kind : (graph.decl id).kind <;>
    simp [opening, Decl.isClass, Decl.class?, Decl.flags, kind]

/-! ### Recording what is read back -/

theorem exists_restated_class {details : ClassDecl}
    (isClass : (graph.decl id).kind = .classDecl details)
    (noAction : details.action = false) (other : Graph) (index : Nat) :
    ∃ copy,
      (other.record index [.declaration (graph.name id) "" 1
        (.classBlock { bases := graph.baseNames id, intrinsic := details.intrinsic })]).decls =
          other.decls.push copy ∧
      Restates graph id copy := by
  refine ⟨_, rfl, ?_⟩
  constructor
  · simp [Decl.kindLabel, isClass]
  · rfl
  · rfl
  · simp [Decl.flags, isClass, noAction]

/-- What is recorded of an object that is read back has the same name, bases and marks. Whether it
is an action is decided by its bases again. -/
theorem exists_restated_object {details : ObjectDecl}
    (isObject : (graph.decl id).kind = .objectDecl details)
    (action : details.action = (graph.baseNames id).any namesAction) (other : Graph)
    (index : Nat) :
    ∃ copy,
      (other.record index [.declaration (graph.name id) "" 1
        (.objectBlock
          { bases := graph.baseNames id
            transient := details.transient
            action := (graph.baseNames id).any namesAction })]).decls = other.decls.push copy ∧
      Restates graph id copy := by
  refine ⟨_, rfl, ?_⟩
  constructor
  · simp [Decl.kindLabel, isObject]
  · rfl
  · rfl
  · simp [Decl.flags, isObject, action]

/-- The text of a declaration is written as a head, and what is recorded of it says the same. A
class and an object are taken apart, since only an object finds out whether it is an action from its
bases. -/
theorem Restatable.exists_head (restatable : graph.Restatable id) (follow : graph.ActionsFollow) :
    ∃ declared,
      WritesHead (graph.name id) (graph.baseNames id)
        (Markdown.declarationText graph (graph.decl id)) declared ∧
      ∀ (other : Graph) (index : Nat), ∃ copy,
        (other.record index [.declaration (graph.name id) "" 1 declared]).decls =
          other.decls.push copy ∧
        Restates graph id copy := by
  have follows := follow.decl id
  have declares := restatable.declares
  cases kind : (graph.decl id).kind with
  | classDecl details =>
      have noMacroCall : details.macroCall = none := by
        simpa [Decl.macroCall?, Decl.class?, kind] using restatable.noMacroCall
      have noAction : details.action = false := by
        simp only [Decl.ActionFollows, kind] at follows
        exact follows noMacroCall
      refine ⟨_, ?_, exists_restated_class kind noAction⟩
      rw [declarationText_eq restatable.noMacroCall]
      simp only [opening, Decl.isClass, Decl.class?, Decl.flags, kind] at declares ⊢
      cases intrinsic : details.intrinsic with
      | false => exact .ofClass (by simpa [intrinsic] using declares)
      | true => exact .intrinsicClass
  | objectDecl details =>
      have action : details.action = (graph.baseNames id).any namesAction := by
        simpa only [Decl.ActionFollows, kind] using follows
      have based : graph.baseNames id ≠ [] := by simpa [Decl.flags, kind] using declares
      have free := restatable.free (by simp [Decl.kindLabel, kind])
      refine ⟨_, ?_, exists_restated_object kind action⟩
      rw [declarationText_eq restatable.noMacroCall]
      simp only [opening, Decl.isClass, Decl.class?, Decl.flags, kind]
      exact .ofObject details.transient based free
  | _ =>
      have isBlock := restatable.isBlock
      simp [Decl.isBlock, Decl.block?, kind] at isBlock

/-! ### Linking -/

section Linking

variable (restatable : graph.Restatable id) (mirrored : graph.Mirrored)

include restatable mirrored

/-- What can be read back before linking can be afterwards, since linking changes neither names nor
marks. -/
theorem Restatable.link : graph.link.Restatable id := by
  have head := keeps_head_link graph
  constructor
  · rw [head.isBlock, restatable.isBlock]
  · rw [keeps_macroCall?_link, restatable.noMacroCall]
  · rw [head.name]
    exact restatable.name
  · rw [mirrored.baseNames_link]
    exact restatable.bases
  · rw [mirrored.baseNames_link, keeps_flags_link]
    exact restatable.declares
  · rw [head.kindLabel, head.name]
    exact restatable.free

/-- Linking does not show in the text, since a base keeps its name when it is resolved. -/
theorem Restatable.declarationText_link :
    Markdown.declarationText graph.link (graph.link.decl id) =
      Markdown.declarationText graph (graph.decl id) := by
  have head := keeps_head_link graph
  rw [declarationText_eq (restatable.link mirrored).noMacroCall,
    declarationText_eq restatable.noMacroCall, mirrored.baseNames_link, head.name]
  simp only [opening, head.isClass, keeps_flags_link graph id]

end Linking

/-! ### The full account -/

/-- In whatever order files are read and the graph is linked: a file whose only line is the text
that a page shows of a class or an object adds one declaration, which says the same. The text is
written as a head, and a file with such a line declares just that. -/
theorem restates_of_session (files : List SourceFile) (steps : List SessionStep) {id : DeclId}
    (restatable : ((ofFiles files).run steps).Restatable id) (other : Graph) (index : Nat)
    (languageSeen : Bool) (file : String) {content : List UInt8}
    (only : RawLine.texts content =
      [(Markdown.declarationText ((ofFiles files).run steps)
        (((ofFiles files).run steps).decl id)).toList]) :
    let reading := other.classifyFile languageSeen index (.ofContent file content none none)
    reading.ending = .ok 1 ∧
      ∃ copy, reading.graph.decls = other.decls.push copy ∧
        Restates ((ofFiles files).run steps) id copy := by
  obtain ⟨declared, writes, restates⟩ := restatable.exists_head (actionsFollow_run files steps)
  have outcome : FileOutcome.ofFile (other.file index).source.isHeader languageSeen
      (.ofContent file content none none) = ⟨[.declaration _ "" 1 declared], languageSeen, .ok 1⟩ :=
    FileOutcome.ofFile_of_writesHead writes restatable.name restatable.bases only file
  simp only [classifyFile, outcome, true_and]
  exact restates other index

/-! ### A transient action -/

/-- A header that declares a class and an object of that class. -/
def lampsText : List UInt8 :=
  "class Thing: object\ntransient lamp: Thing, LightAction\n".toUTF8.toList

/-- What the header declares. -/
def lampsEntries : List Entry :=
  [.declaration "Thing" "" 1 (.classBlock { bases := ["object"] }),
    .declaration "lamp" "" 2
      (.objectBlock { bases := ["Thing", "LightAction"], transient := true, action := true })]

/-- The file of the header. -/
def lampsFiles : List SourceFile :=
  [⟨"lamps.h", "lamps.h", true, [], 2⟩]

/-- The reading of the header. -/
def lampsReading : FileReading :=
  ⟨0, false, "lamps.h", lampsText, none, none⟩

theorem lamps_eq :
    (ofFiles lampsFiles).readAll [lampsReading] = (ofFiles lampsFiles).record 0 lampsEntries := by
  apply readAll_header <;> decide +kernel

/-- The text that the page shows of the object, as a file. -/
def lampText : List UInt8 :=
  "transient lamp: Thing, LightAction\n".toUTF8.toList

/-- The object is transient and an action, and its base has been resolved by linking. -/
theorem restates_lamp :
    let linked := (ofFiles lampsFiles).run [.read lampsReading, .link]
    let reading :=
      (ofFiles [.ofPath "copy.t"]).classifyFile false 0 (.ofContent "copy.t" lampText none none)
    linked.Restatable 1 ∧
      RawLine.texts lampText = [(Markdown.declarationText linked (linked.decl 1)).toList] ∧
      reading.ending = .ok 1 ∧
        ∃ copy, reading.graph.decls = (ofFiles [.ofPath "copy.t"]).decls.push copy ∧
          Restates linked 1 copy := by
  let read := (ofFiles lampsFiles).readAll [lampsReading]
  have mirrored : read.Mirrored := mirrored_readAll _ _
  have restatable : read.Restatable 1 := by
    have names : read.name 1 = "lamp" ∧ read.baseNames 1 = ["Thing", "LightAction"] := by
      simp only [read, lamps_eq]
      decide +kernel
    constructor
    · simp only [read, lamps_eq]
      decide +kernel
    · simp only [read, lamps_eq]
      decide +kernel
    · rw [names.1]
      decide
    · simp only [names.2, List.forall_mem_cons]
      exact ⟨by decide, by decide, nofun⟩
    · exact .inl (by simp [names.2])
    · intro _
      rw [names.1]
      decide
  have only : RawLine.texts lampText =
      [(Markdown.declarationText read.link (read.link.decl 1)).toList] := by
    rw [restatable.declarationText_link mirrored]
    simp only [read, lamps_eq]
    decide +kernel
  exact ⟨restatable.link mirrored, only,
    restates_of_session lampsFiles [.read lampsReading, .link] (restatable.link mirrored) _ 0 false
      "copy.t" only⟩

end TadsReference.Graph
