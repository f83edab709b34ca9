import TadsReference.Page.Address
import TadsReference.Proofs.Entry.Kinds
import TadsReference.Proofs.Graph.Additions
import TadsReference.Proofs.Graph.Sessions

/-!
# Flags

A class or an object is marked as intrinsic, as transient or as an action in the line that declares
it. Whether it is an action follows from what else the graph knows of it: a class only if it was
written as a macro call, an object if one of its bases makes it one. Since neither reading nor
linking changes the name that a base shows, `actionsFollow_run` says so at any time.
-/

namespace TadsReference

/-- What a class or an object is marked as. -/
structure Flags where
  intrinsic : Bool := false
  transient : Bool := false
  action : Bool := false
deriving Repr, DecidableEq

namespace Decl

/-- What a class or an object is marked as. Any other declaration is not marked. -/
def flags (decl : Decl) : Flags :=
  match decl.kind with
  | .classDecl details => { intrinsic := details.intrinsic, action := details.action }
  | .objectDecl details => { transient := details.transient, action := details.action }
  | _ => {}

/-- The macro call that a class was written as. -/
def macroCall? (decl : Decl) : Option String :=
  decl.class?.bind (·.macroCall)

theorem flags_skeleton (decl : Decl) : decl.skeleton.flags = decl.flags := by
  rcases decl with ⟨_, _, _, kind⟩
  cases kind <;> rfl

theorem macroCall?_skeleton (decl : Decl) : decl.skeleton.macroCall? = decl.macroCall? := by
  rcases decl with ⟨_, _, _, kind⟩
  cases kind <;> rfl

/-- Whether a class or an object is an action follows from the macro call that the class was written
as and from the names of the object's bases. -/
def ActionFollows (decl : Decl) (bases : List String) : Prop :=
  match decl.kind with
  | .classDecl details => details.macroCall = none → details.action = false
  | .objectDecl details => details.action = bases.any namesAction
  | _ => True

theorem actionFollows_skeleton {decl : Decl} {bases : List String} :
    decl.skeleton.ActionFollows bases ↔ decl.ActionFollows bases := by
  rcases decl with ⟨_, _, _, kind⟩
  cases kind <;> rfl

/-- Whether a declaration is an action follows from its skeleton, so no step that keeps skeletons
can change it. -/
theorem actionFollows_iff_of_skeleton_eq {left right : Decl} (same : left.skeleton = right.skeleton)
    {bases : List String} : left.ActionFollows bases ↔ right.ActionFollows bases := by
  rw [← actionFollows_skeleton, same, actionFollows_skeleton]

end Decl

namespace Graph

open Relation

variable {graph before after : Graph} {id : DeclId}

/-- The names that the bases of a declaration show. -/
def baseNames (graph : Graph) (id : DeclId) : List String :=
  (graph.decl id).bases.map graph.baseName

/-- Which classes and objects are actions follows from what else the graph knows of them. -/
structure ActionsFollow (graph : Graph) : Prop where
  decl : ∀ id, (graph.decl id).ActionFollows (graph.baseNames id)

/-! ### Names of bases -/

/-- Linking resolves the names of bases to declarations of the same names, so a base shows the name
that was written. -/
theorem Mirrored.baseNames_link (mirrored : graph.Mirrored) (id : DeclId) :
    graph.link.baseNames id = graph.baseNames id := by
  have head := keeps_head_link graph
  rw [baseNames, mirrored.bases_link, List.map_map]
  apply List.map_congr_left
  intro base _
  cases base with
  | decl target => exact head.name target
  | name name =>
      simp only [Function.comp_apply, resolveBase]
      cases found : graph.sortCollections.findBlock? name with
      | none => simp only [baseName]
      | some target =>
          calc graph.link.name target
              = graph.name target := head.name target
            _ = graph.sortCollections.name target := (name_sortCollections ..).symm
            _ = name := name_of_findBlock? found

/-- A graph that grows keeps the bases of what it has. A base that has been resolved is a class or
an object, and it keeps its name. -/
theorem Mirrored.baseNames_grow (mirrored : before.Mirrored) (grows : Grows before after)
    (inside : id < before.decls.size) : after.baseNames id = before.baseNames id := by
  rw [baseNames, grows.bases id inside]
  apply List.map_congr_left
  intro base isBase
  cases base with
  | name name => rfl
  | decl target =>
      have isBlock := mirrored.bases id target isBase
      exact congrArg (·.1) (grows.head target (lt_size_of_view rfl isBlock))

theorem keeps_flags_link (graph : Graph) : Keeps Decl.flags graph graph.link := by
  intro id
  rw [← Decl.flags_skeleton, keeps_skeleton_link graph id, Decl.flags_skeleton]

theorem keeps_macroCall?_link (graph : Graph) : Keeps Decl.macroCall? graph graph.link := by
  intro id
  rw [← Decl.macroCall?_skeleton, keeps_skeleton_link graph id, Decl.macroCall?_skeleton]

/-! ### Reading -/

namespace Recording

/-- What holds of all that the entries add holds of all that is added by recording them. -/
theorem exists_adds_foldl {holds : Decl → Prop} {entries : List Entry}
    (ofEntry : ∀ entry ∈ entries, ∀ (state : Recording) shortName,
      ∀ decl ∈ state.entryAdditions shortName entry, holds decl)
    (state : Recording) (index : Nat) (shortName : String) :
    ∃ added, Adds state.graph added (entries.foldl (add index shortName) state).graph ∧
      ∀ decl ∈ added, holds decl := by
  induction entries generalizing state with
  | nil => exact ⟨[], .refl _, nofun⟩
  | cons entry entries ih =>
      obtain ⟨ofEntry, ofEntries⟩ := List.forall_mem_cons.mp ofEntry
      obtain ⟨later, adds, ofLater⟩ := ih ofEntries (state.add index shortName entry)
      refine ⟨_, (adds_add state index shortName entry).trans adds, ?_⟩
      intro decl isAdded
      rcases List.mem_append.mp isAdded with isNow | isLater
      · exact ofEntry state shortName decl isNow
      · exact ofLater decl isLater

/-- What an entry adds is an action only if what it is written from makes it one. Of all
declarations only classes and objects can be, and the flag of each was read off the line. -/
theorem actionFollows_of_mem_entryAdditions {entry : Entry}
    (follows : entry.Declares fun _ declared => declared.ActionFollows) {state : Recording}
    {shortName : String} {decl : Decl} (isAdded : decl ∈ state.entryAdditions shortName entry)
    (graph : Graph) : decl.ActionFollows (decl.bases.map graph.baseName) := by
  cases entry with
  | fileDescription text => contradiction
  | enumGroup description line members =>
      obtain ⟨name, _, rfl⟩ := List.mem_map.mp isAdded
      trivial
  | declaration name description line declared =>
      cases declared with
      | classBlock head =>
          rcases mem_classAdditions_cases isAdded with rfl | ⟨_, rfl⟩
          · trivial
          · exact follows
      | objectBlock head =>
          obtain rfl := List.mem_singleton.mp isAdded
          have names : (head.bases.map BaseRef.name).map graph.baseName = head.bases := by
            rw [List.map_map]
            exact List.map_id _
          change head.action = ((head.bases.map BaseRef.name).map graph.baseName).any namesAction
          rw [names]
          exact follows
      | property interfaceOnly =>
          obtain ⟨_, _, rfl⟩ := List.mem_map.mp isAdded
          trivial
      | method parameters interfaceOnly =>
          obtain ⟨_, _, rfl⟩ := List.mem_map.mp isAdded
          trivial
      | _ =>
          obtain rfl := List.mem_singleton.mp isAdded
          trivial

end Recording

/-- What a reading adds are actions only as far as their lines make them so, in whatever graph the
bases are looked up. -/
theorem exists_adds_read (graph : Graph) (reading : FileReading) :
    ∃ added, Adds graph added (graph.read reading) ∧
      ∀ decl ∈ added, ∀ graph : Graph, decl.ActionFollows (decl.bases.map graph.baseName) := by
  apply Recording.exists_adds_foldl
  intro entry isEntry state shortName decl isAdded
  apply Recording.actionFollows_of_mem_entryAdditions _ isAdded
  exact FileOutcome.declares_ofLines (fun _ _ _ may => may.actionFollows) (fun _ _ _ => trivial)
    entry isEntry

/-- What was there before shows the same bases as before, and what is new was read off lines that
say whether it is an action. -/
theorem ActionsFollow.read (follow : graph.ActionsFollow) (mirrored : graph.Mirrored)
    (reading : FileReading) : (graph.read reading).ActionsFollow := by
  obtain ⟨added, adds, ofAdded⟩ := exists_adds_read graph reading
  constructor
  intro id
  have written := adds.written_decl id
  split at written
  · next inside =>
      rw [mirrored.baseNames_grow (grows_read graph reading) inside,
        Decl.actionFollows_iff_of_skeleton_eq (congrArg (·.1) written)]
      exact follow.decl id
  · have bases := congrArg (·.2.1) written
    simp only [Decl.written] at bases
    rw [Decl.actionFollows_iff_of_skeleton_eq (congrArg (·.1) written), baseNames, bases,
      List.getD_eq_getElem?_getD]
    cases isAdded : added[id - graph.decls.size]? with
    | none => trivial
    | some decl => exact ofAdded decl (List.mem_of_getElem? isAdded) _

theorem ActionsFollow.link (follow : graph.ActionsFollow) (mirrored : graph.Mirrored) :
    graph.link.ActionsFollow := by
  constructor
  intro id
  rw [mirrored.baseNames_link, Decl.actionFollows_iff_of_skeleton_eq (keeps_skeleton_link graph id)]
  exact follow.decl id

/-- The induction is on the session. Both kinds of steps need to know that base lists and lists of
heirs mirror each other, which they keep as well. -/
theorem ActionsFollow.run (follow : graph.ActionsFollow) (mirrored : graph.Mirrored)
    (steps : List SessionStep) : (graph.run steps).ActionsFollow := by
  induction steps generalizing graph with
  | nil => exact follow
  | cons step steps ih =>
      cases step with
      | read reading =>
          rw [run_cons, perform_read]
          exact ih (follow.read mirrored reading) (mirrored.read reading)
      | link =>
          rw [run_cons, perform_link]
          exact ih (follow.link mirrored) mirrored.link

/-- Whatever is read and linked, in whatever order, which classes and objects are actions follows
from what else the graph knows of them. -/
theorem actionsFollow_run (files : List SourceFile) (steps : List SessionStep) :
    ((ofFiles files).run steps).ActionsFollow := by
  refine ActionsFollow.run ⟨fun id => ?_⟩ (mirrored_ofFiles files) steps
  rw [decl_of_size_le (Nat.zero_le _)]
  trivial

end Graph

end TadsReference
