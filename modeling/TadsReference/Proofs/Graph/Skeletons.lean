import TadsReference.Graph.VisibleMacros
import TadsReference.Proofs.Graph.Citations
import TadsReference.Proofs.Graph.Passes

/-!
# Skeletons

The skeleton of a declaration is what its own line says of it, without the name of its page and
without all that other lines add: members, rules, heirs, resolved bases and notes. A declaration
keeps its skeleton for good, whatever is read and linked later. So it keeps whatever a view shows of
the skeleton alone.
-/

namespace TadsReference

namespace DeclKind

/-- What the line of a declaration says of its kind. Members, bases, notes and the names of pages
are left out, since other lines and linking change them. -/
def skeleton : DeclKind → DeclKind
  | classDecl details =>
      classDecl
        { block := { body := { fileName := "" }, bases := [] }
          intrinsic := details.intrinsic
          action := details.action
          grammar := details.grammar
          macroCall := details.macroCall }
  | objectDecl details =>
      objectDecl
        { block := { body := { fileName := "" }, bases := [] }
          transient := details.transient
          action := details.action }
  | production _ => production { body := { fileName := "" } }
  | modifyDecl _ => modifyDecl { body := { fileName := "" } }
  | method details parameters =>
      method { owner := details.owner, interfaceOnly := details.interfaceOnly } parameters
  | property details =>
      property { owner := details.owner, interfaceOnly := details.interfaceOnly }
  | kind => kind

end DeclKind

namespace Decl

/-- A declaration with the skeleton of its kind. -/
def skeleton (decl : Decl) : Decl :=
  { decl with kind := decl.kind.skeleton }

/-- The group of an enumeration constant. -/
def enumGroup? (decl : Decl) : Option GroupId :=
  match decl.kind with
  | .enumMember group => some group
  | _ => none

/-- The definition that a macro gives. -/
def macroDefinition? (decl : Decl) : Option MacroDefinition :=
  match decl.kind with
  | .macroDecl parameters body => some ⟨decl.name, parameters, body⟩
  | _ => none

/-! ### Views of the skeleton -/

section Views

variable (decl : Decl)

@[simp]
theorem head_skeleton : decl.skeleton.head = decl.head := by
  rcases decl with ⟨_, _, _, kind⟩
  cases kind <;> rfl

@[simp]
theorem production?_skeleton : decl.skeleton.production? = decl.production? := by
  rcases decl with ⟨_, _, _, kind⟩
  cases kind <;> rfl

@[simp]
theorem owner?_skeleton : decl.skeleton.owner? = decl.owner? := by
  rcases decl with ⟨_, _, _, kind⟩
  cases kind <;> rfl

@[simp]
theorem enumGroup?_skeleton : decl.skeleton.enumGroup? = decl.enumGroup? := by
  rcases decl with ⟨_, _, _, kind⟩
  cases kind <;> rfl

@[simp]
theorem macroDefinition?_skeleton : decl.skeleton.macroDefinition? = decl.macroDefinition? := by
  rcases decl with ⟨_, _, _, kind⟩
  cases kind <;> rfl

theorem head_eq_of_skeleton_eq {left right : Decl} (same : left.skeleton = right.skeleton) :
    left.head = right.head := by
  simpa using congrArg head same

theorem production?_eq_of_skeleton_eq {left right : Decl} (same : left.skeleton = right.skeleton) :
    left.production? = right.production? := by
  simpa using congrArg production? same

theorem owner?_eq_of_skeleton_eq {left right : Decl} (same : left.skeleton = right.skeleton) :
    left.owner? = right.owner? := by
  simpa using congrArg owner? same

theorem enumGroup?_eq_of_skeleton_eq {left right : Decl} (same : left.skeleton = right.skeleton) :
    left.enumGroup? = right.enumGroup? := by
  simpa using congrArg enumGroup? same

theorem macroDefinition?_eq_of_skeleton_eq {left right : Decl}
    (same : left.skeleton = right.skeleton) : left.macroDefinition? = right.macroDefinition? := by
  simpa using congrArg macroDefinition? same

end Views

/-! ### Changes that keep the skeleton -/

section Changes

variable (decl : Decl)

@[simp]
theorem skeleton_mapBody (change : Body → Body) :
    (decl.mapBody change).skeleton = decl.skeleton := by
  rcases decl with ⟨_, _, _, kind⟩
  cases kind <;> rfl

@[simp]
theorem skeleton_mapProduction (change : ProductionDecl → ProductionDecl) :
    (decl.mapProduction change).skeleton = decl.skeleton := by
  rcases decl with ⟨_, _, _, kind⟩
  cases kind <;> rfl

@[simp]
theorem skeleton_withRule (rule : DeclId) : (decl.withRule rule).skeleton = decl.skeleton :=
  skeleton_mapProduction decl _

theorem skeleton_sortLists (sort : List DeclId → List DeclId) :
    (decl.sortLists sort).skeleton = decl.skeleton := by
  rcases decl with ⟨_, _, _, kind⟩
  cases kind <;> rfl

theorem skeleton_marked : decl.marked.skeleton = decl.skeleton := by
  rcases decl with ⟨_, _, _, kind⟩
  cases kind <;> rfl

theorem MergeChange.skeleton {change : Decl → Decl} (isChange : MergeChange change) :
    (change decl).skeleton = decl.skeleton := by
  rcases decl with ⟨_, _, _, kind⟩
  cases isChange with
  | offer isOffer => cases isOffer <;> cases kind <;> rfl
  | blockNote location id => cases kind <;> rfl
  | target target fileName => cases kind <;> rfl

theorem BaseChange.skeleton {change : Decl → Decl} (isChange : BaseChange change) :
    (change decl).skeleton = decl.skeleton := by
  rcases decl with ⟨_, _, _, kind⟩
  cases isChange with
  | heir heir heirIsClass => cases heirIsClass <;> cases kind <;> rfl
  | resolve resolve => cases kind <;> rfl

end Changes

end Decl

namespace Graph

theorem keeps_skeleton_link (graph : Graph) : Keeps Decl.skeleton graph graph.link := by
  apply keeps_link
  · exact fun _ isChange decl => isChange.skeleton decl
  · exact fun _ isChange decl => isChange.skeleton decl
  · exact fun change decl => Decl.skeleton_mapProduction decl change
  · exact fun sort decl => Decl.skeleton_sortLists decl sort
  · exact Decl.skeleton_marked

end Graph

end TadsReference
