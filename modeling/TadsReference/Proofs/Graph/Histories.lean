import TadsReference.Proofs.Entry.Events
import TadsReference.Proofs.Graph.Accounts

/-!
# Histories of readings

The history of a reading lists what is added to the graph, and the block comments that are
completed, in the order in which that happens. Nothing that is added is missing from it:
`covers_history`. What has been added keeps its description and its location, so both can be read
off the graph that the reading ends with: `shown_gains_foldl`.
-/

namespace TadsReference

/-- What is added to a graph, a declaration or a group. -/
inductive Addition where
  | decl (id : DeclId)
  | group (id : GroupId)
deriving Repr, DecidableEq

namespace Addition

/-- The number of a declaration that was added. -/
def declId? : Addition → Option DeclId
  | decl id => some id
  | group _ => none

/-- The number of a group that was added. -/
def groupId? : Addition → Option GroupId
  | decl _ => none
  | group id => some id

/-- Whether a graph has what was added. -/
def Within (graph : Graph) : Addition → Prop
  | decl id => id < graph.decls.size
  | group id => id < graph.groups.size

end Addition

namespace Graph

/-- The description and the location of what was added. -/
def shown (graph : Graph) : Addition → String × Location
  | .decl id => ((graph.decl id).description, (graph.decl id).location)
  | .group id => ((graph.group id).description, (graph.group id).location)

/-- The description of what was added. -/
def description (graph : Graph) (addition : Addition) : String :=
  (graph.shown addition).1

/-- The location of what was added. -/
def location (graph : Graph) (addition : Addition) : Location :=
  (graph.shown addition).2

/-- What one graph has more than another. A group comes before its constants. -/
def gains (before after : Graph) : List Addition :=
  (List.range' before.groups.size (after.groups.size - before.groups.size)).map .group ++
    (List.range' before.decls.size (after.decls.size - before.decls.size)).map .decl

end Graph

/-- What happens when a file is read. -/
inductive Happening where
  /-- A block comment is complete behind the line of the given number. -/
  | comment (text : String) (line : Nat)
  | added (addition : Addition)
deriving Repr, DecidableEq

namespace Happening

/-- The text of a comment that has been completed. -/
def comment? : Happening → Option String
  | comment text _ => some text
  | added _ => none

/-- What has been added, unless it is a comment that has been completed. -/
def addition? : Happening → Option Addition
  | comment _ _ => none
  | added addition => some addition

/-- The line at which it happens. -/
def line (graph : Graph) : Happening → Nat
  | comment _ line => line
  | added addition => (graph.location addition).line

/-- Whether it is a comment, or something with a description. -/
def tells (graph : Graph) : Happening → Bool
  | comment _ _ => true
  | added addition => graph.description addition != ""

variable (additions : List Addition)

@[simp] theorem filterMap_comment?_added : (additions.map added).filterMap comment? = [] := by
  induction additions <;> simp_all [comment?]

@[simp] theorem filterMap_addition?_added :
    (additions.map added).filterMap addition? = additions := by
  induction additions <;> simp_all [addition?]

end Happening

namespace Graph

namespace Recording

/-- What happens when events are recorded. -/
def history (index : Nat) (shortName : String) (state : Recording) : List Event → List Happening
  | [] => []
  | .comment text line :: events => .comment text line :: history index shortName state events
  | .entry entry :: events =>
      (gains state.graph (state.add index shortName entry).graph).map .added ++
        history index shortName (state.add index shortName entry) events

end Recording

/-- What happens when the file at a position is read. -/
def history (graph : Graph) (languageSeen : Bool) (index : Nat) (reader : Reader) :
    List Happening :=
  Recording.history index (graph.file index).source.shortName ⟨graph, none⟩
    (FileOutcome.events (graph.file index).source.isHeader languageSeen .start reader)

/-! ### What stays as it was added -/

variable {before middle after graph : Graph} {addition : Addition}

/-- A graph is followed by one that shows all that it has as it was. -/
structure Retains (before after : Graph) : Prop where
  decls : before.decls.size ≤ after.decls.size
  groups : before.groups.size ≤ after.groups.size
  shown : ∀ addition : Addition, addition.Within before →
    after.shown addition = before.shown addition

namespace Retains

theorem refl (graph : Graph) : Retains graph graph :=
  ⟨Nat.le_refl _, Nat.le_refl _, fun _ _ => rfl⟩

theorem within (retains : Retains before after) (within : addition.Within before) :
    addition.Within after := by
  cases addition with
  | decl id => exact Nat.lt_of_lt_of_le within retains.decls
  | group id => exact Nat.lt_of_lt_of_le within retains.groups

theorem trans (first : Retains before middle) (second : Retains middle after) :
    Retains before after where
  decls := Nat.le_trans first.decls second.decls
  groups := Nat.le_trans first.groups second.groups
  shown addition within :=
    (second.shown addition (first.within within)).trans (first.shown addition within)

end Retains

theorem mem_gains : addition ∈ gains before after → addition.Within after := by
  simp only [gains, List.mem_append, List.mem_map, List.mem_range'_1]
  rintro (⟨id, inside, rfl⟩ | ⟨id, inside, rfl⟩)
  · change id < after.groups.size
    omega
  · change id < after.decls.size
    omega

/-- The declarations that are added show what they were added with. -/
theorem shown_of_adds {added : List Decl} (adds : Adds before added after) :
    ((List.range' before.decls.size (after.decls.size - before.decls.size)).map .decl).map
        after.shown =
      added.map fun decl => (decl.description, decl.location) := by
  have size := adds.size
  apply List.ext_getElem
  · simp [size]
  · intro position isGained isAdded
    simp only [List.length_map] at isAdded
    have written := adds.written_decl (before.decls.size + position)
    simp only [Nat.not_lt.mpr (Nat.le_add_right _ _), if_false, Nat.add_sub_cancel_left,
      List.getD_eq_getElem?_getD, List.getElem?_eq_getElem isAdded, Option.getD_some] at written
    simp only [List.map_map, List.getElem_map, List.getElem_range', Nat.one_mul,
      Function.comp_apply, shown]
    exact congrArg (fun shown => (shown.1.description, shown.1.location)) written

namespace Recording

variable {index : Nat} {shortName : String}

/-- Only an enumeration adds a group. -/
theorem groups_of_add (state : Recording) (index : Nat) (shortName : String) (entry : Entry) :
    (state.add index shortName entry).graph.groups =
      match entry with
      | .enumGroup description line members =>
          state.graph.groups.push
            { description := description
              location := ⟨shortName, line⟩
              members := (List.range members.length).map (state.graph.nextId + ·) }
      | _ => state.graph.groups := by
  cases entry with
  | fileDescription text => rfl
  | declaration name description line declared => exact (kept_declare ..).1
  | enumGroup description line members => rfl

/-- An entry changes neither what was described nor where it stands. Declarations behind it are
added, and a group is the last one of its graph. -/
theorem retains_add (state : Recording) (index : Nat) (shortName : String) (entry : Entry) :
    Retains state.graph (state.add index shortName entry).graph := by
  have adds := adds_add state index shortName entry
  have groups := groups_of_add state index shortName entry
  refine ⟨by rw [adds.size]; exact Nat.le_add_right _ _, ?_, ?_⟩
  · rw [groups]
    split
    · simp
    · exact Nat.le_refl _
  · rintro (id | id) within
    · change id < state.graph.decls.size at within
      have written := adds.written_decl id
      rw [if_pos within] at written
      exact congrArg (fun shown => (shown.1.description, shown.1.location)) written
    · have same : (state.add index shortName entry).graph.group id = state.graph.group id := by
        rw [group, group, groups]
        split
        · simp only [Addition.Within] at within
          simp [Array.getElem?_push, within, Nat.ne_of_lt within]
        · rfl
      simp only [shown, same]

theorem retains_foldl (state : Recording) (index : Nat) (shortName : String)
    (entries : List Entry) :
    Retains state.graph (entries.foldl (add index shortName) state).graph := by
  induction entries generalizing state with
  | nil => exact .refl _
  | cons entry entries ih => exact (retains_add ..).trans (ih _)

/-! ### What an entry adds -/

/-- What a declaration adds has the location of the declaration, and but for the last it has no
description. -/
theorem captions_additions (state : Recording) (name text : String) (location : Location)
    (declared : Declared) :
    (∀ decl ∈ state.additions name text location declared, decl.location = location) ∧
      (((state.additions name text location declared).map (·.description)).filter
        (· != "")).Sublist [text] := by
  have single (text : String) : ([text].filter (· != "")).Sublist [text] := List.filter_sublist
  cases declared with
  | classBlock head =>
      simp only [additions, classAdditions, writtenClass, missingProduction]
      split
      · simp [single]
      · split <;> simp [single]
  | property interfaceOnly => cases owner : state.owner <;> simp [additions, owner, single]
  | method parameters interfaceOnly =>
      cases owner : state.owner <;> simp [additions, owner, single]
  | _ => simp [additions, single]

/-- What an entry adds, as the graph behind it shows it. -/
theorem map_shown_gains (state : Recording) (index : Nat) (shortName : String) (entry : Entry) :
    (gains state.graph (state.add index shortName entry).graph).map
        (state.add index shortName entry).graph.shown =
      (match entry with
        | .enumGroup description line _ => [(description, ⟨shortName, line⟩)]
        | _ => []) ++
        (state.entryAdditions shortName entry).map fun decl =>
          (decl.description, decl.location) := by
  have decls := shown_of_adds (adds_add state index shortName entry)
  have groups := groups_of_add state index shortName entry
  rw [gains, List.map_append, decls]
  congr 1
  cases entry with
  | enumGroup description line members => simp [groups, shown, group]
  | _ => simp [groups]

/-- What an entry adds is at the line of the entry. At most one of it has a description, which is
that of the entry. -/
theorem shown_gains (state : Recording) (index : Nat) (shortName : String) {entry : Entry}
    {line : Nat} {text : String} (place : entry.line? = some line)
    (described : entry.description? = some text) :
    (∀ addition ∈ gains state.graph (state.add index shortName entry).graph,
      (state.add index shortName entry).graph.location addition = ⟨shortName, line⟩) ∧
    (((gains state.graph (state.add index shortName entry).graph).map
      (state.add index shortName entry).graph.description).filter (· != "")).Sublist [text] := by
  have captions := map_shown_gains state index shortName entry
  have descriptions := congrArg (List.map Prod.fst) captions
  rw [List.map_map] at descriptions
  change (gains _ _).map (state.add index shortName entry).graph.description = _ at descriptions
  have locations (addition : Addition)
      (isGained : addition ∈ gains state.graph (state.add index shortName entry).graph) := by
    have shown := List.mem_map_of_mem (f := (state.add index shortName entry).graph.shown) isGained
    rw [captions] at shown
    exact List.mem_map_of_mem (f := Prod.snd) shown
  rw [descriptions]
  cases entry with
  | fileDescription text => contradiction
  | declaration name description other declared =>
      cases place
      cases described
      rcases captions_additions state name text ⟨shortName, line⟩ declared with ⟨isAt, few⟩
      refine ⟨?_, by simpa [entryAdditions, Function.comp_def] using few⟩
      intro addition isGained
      have shown := locations addition isGained
      simp only [List.nil_append, List.map_map, List.mem_map, entryAdditions] at shown
      rcases shown with ⟨decl, isAdded, same⟩
      exact same.symm.trans (isAt decl isAdded)
  | enumGroup description other members =>
      cases place
      cases described
      have silent : (members.map fun _ => "").filter (· != "") = [] := by simp
      refine ⟨?_, ?_⟩
      · intro addition isGained
        have shown := locations addition isGained
        simp only [List.map_append, List.map_cons, List.map_nil, List.map_map, List.mem_append,
          List.mem_singleton, List.mem_map, entryAdditions] at shown
        rcases shown with same | ⟨_, _, same⟩
        · exact same
        · exact same.symm
      · simp only [List.map_append, List.map_cons, List.map_nil, List.map_map, List.filter_append,
          entryAdditions, Function.comp_def, silent, List.append_nil]
        exact List.filter_sublist

/-- What an entry adds is still shown like that behind the entries that follow. What an entry adds
is retained by all entries behind it. -/
theorem shown_gains_foldl (state : Recording) (index : Nat) (shortName : String) {entry : Entry}
    {line : Nat} {text : String} (place : entry.line? = some line)
    (described : entry.description? = some text) (entries : List Entry) {final : Graph}
    (isFinal : ((entry :: entries).foldl (add index shortName) state).graph = final) :
    (∀ addition ∈ gains state.graph (state.add index shortName entry).graph,
      final.location addition = ⟨shortName, line⟩) ∧
    (((gains state.graph (state.add index shortName entry).graph).filter
      (final.description · != "")).map final.description).Sublist [text] := by
  rcases shown_gains state index shortName place described with ⟨locations, descriptions⟩
  have same (addition : Addition)
      (isGained : addition ∈ gains state.graph (state.add index shortName entry).graph) :
      final.shown addition = (state.add index shortName entry).graph.shown addition := by
    rw [← isFinal]
    exact (retains_foldl ..).shown addition (mem_gains isGained)
  refine ⟨?_, ?_⟩
  · intro addition isGained
    rw [location, same addition isGained]
    exact locations addition isGained
  · have shown : (gains state.graph (state.add index shortName entry).graph).map
        final.description = (gains state.graph (state.add index shortName entry).graph).map
          (state.add index shortName entry).graph.description :=
      List.map_congr_left fun addition isGained => congrArg Prod.fst (same addition isGained)
    rwa [← shown, List.filter_map] at descriptions

/-- An entry that describes the file adds nothing. -/
theorem gains_fileDescription (state : Recording) (index : Nat) (shortName text : String) :
    gains state.graph (state.add index shortName (.fileDescription text)).graph = [] := by
  simp [gains, add, modifyFile]

end Recording

/-! ### Nothing is missing -/

/-- Whether a history lists all that one graph has more than another, in the order in which the
declarations and the groups were added. -/
structure Covers (before after : Graph) (history : List Happening) : Prop where
  decls : (history.filterMap Happening.addition?).filterMap Addition.declId? =
    List.range' before.decls.size (after.decls.size - before.decls.size)
  groups : (history.filterMap Happening.addition?).filterMap Addition.groupId? =
    List.range' before.groups.size (after.groups.size - before.groups.size)

/-- The declarations that a graph has gained are those with the numbers from the old size up to the
new one. -/
theorem declIds_gains (before after : Graph) :
    (gains before after).filterMap Addition.declId? =
      List.range' before.decls.size (after.decls.size - before.decls.size) := by
  simp [gains, List.filterMap_map, Function.comp_def, Addition.declId?]

/-- The groups that a graph has gained are those with the numbers from the old size up to the new
one. -/
theorem groupIds_gains (before after : Graph) :
    (gains before after).filterMap Addition.groupId? =
      List.range' before.groups.size (after.groups.size - before.groups.size) := by
  simp [gains, List.filterMap_map, Function.comp_def, Addition.groupId?]

/-- Of numbers that become greater, the first range goes on in the second. -/
theorem range'_append_of_le {first middle last : Nat} (front : first ≤ middle)
    (rest : middle ≤ last) :
    List.range' first (middle - first) ++ List.range' middle (last - middle) =
      List.range' first (last - first) := by
  obtain ⟨gained, rfl⟩ := Nat.exists_eq_add_of_le front
  obtain ⟨more, rfl⟩ := Nat.exists_eq_add_of_le rest
  have whole : first + gained + more - first = gained + more := by omega
  simp [whole, List.range'_append_1]

/-- The history of several events lists all that they add. The induction goes event by event, and
the numbers that one event adds go on where those before it have ended. -/
theorem Recording.covers_history (state : Recording) (index : Nat) (shortName : String)
    (events : List Event) :
    Covers state.graph
      ((events.filterMap Event.recorded?).foldl (Recording.add index shortName) state).graph
      (Recording.history index shortName state events) := by
  induction events generalizing state with
  | nil => constructor <;> simp [Recording.history]
  | cons event events ih =>
      cases event with
      | comment text line => exact ⟨(ih state).decls, (ih state).groups⟩
      | entry entry =>
          have gained := Recording.retains_add state index shortName entry
          have later := Recording.retains_foldl (state.add index shortName entry) index shortName
            (events.filterMap Event.recorded?)
          have rest := ih (state.add index shortName entry)
          constructor
          · rw [Recording.history, List.filterMap_append, Happening.filterMap_addition?_added,
              List.filterMap_append, declIds_gains, rest.decls]
            exact range'_append_of_le gained.decls later.decls
          · rw [Recording.history, List.filterMap_append, Happening.filterMap_addition?_added,
              List.filterMap_append, groupIds_gains, rest.groups]
            exact range'_append_of_le gained.groups later.groups

/-- The graph that a reading ends with. -/
theorem graph_classifyFile (graph : Graph) (languageSeen : Bool) (index : Nat) (reader : Reader) :
    (graph.classifyFile languageSeen index reader).graph =
      (((FileOutcome.events (graph.file index).source.isHeader languageSeen .start reader).filterMap
        Event.recorded?).foldl (Recording.add index (graph.file index).source.shortName)
          ⟨graph, none⟩).graph := by
  rw [FileOutcome.entries_events]
  rfl

/-- Nothing that a reading adds is missing from its history. -/
theorem covers_history (graph : Graph) (languageSeen : Bool) (index : Nat) (reader : Reader) :
    Covers graph (graph.classifyFile languageSeen index reader).graph
      (graph.history languageSeen index reader) := by
  rw [graph_classifyFile]
  exact Recording.covers_history ⟨graph, none⟩ ..

end Graph

end TadsReference
