import TadsReference.Proofs.Graph.Histories
import TadsReference.Proofs.Text.DecodedLines

/-!
# Locations

What a reading adds is located in the file that is read, at one of the lines that the first look at
the file counted. The lines never decrease in the order in which things are added, although
recognising a line may mean reading ahead and handing lines back: `located_classifyFile`.
-/

namespace TadsReference

theorem RawLine.length_ofContent (content : List UInt8) (mirror : Option (List UInt8)) :
    (ofContent content mirror).length = (Text.lines (Text.Utf8.decode content)).length := by
  have size (number : Nat) (lines mirror : List (List Char)) :
      (enumerate number lines mirror).length = lines.length := by
    induction lines generalizing number mirror with
    | nil => rfl
    | cons line lines ih => rw [enumerate, List.length_cons, ih, List.length_cons]
  rw [ofContent, size, texts_eq_bareLines, Text.length_bareLines]

namespace Graph

/-- Whether all that happens does so between two lines, in the order of the lines, and whether what
is added is located in a file. -/
structure InPlace (graph : Graph) (shortName : String) (first last : Nat)
    (history : List Happening) : Prop where
  inside : ∀ happening ∈ history, first ≤ happening.line graph ∧ happening.line graph ≤ last
  ascending : history.Pairwise fun earlier later => earlier.line graph ≤ later.line graph
  file : ∀ addition ∈ history.filterMap Happening.addition?,
    (graph.location addition).file = shortName

namespace InPlace

variable {graph : Graph} {shortName : String} {first next last : Nat} {history : List Happening}

theorem nil : InPlace graph shortName first last [] := by
  constructor <;> simp

/-- A comment that is completed in front of what is in place is in place as well. -/
theorem comment {text : String} (further : first ≤ next) (inside : next ≤ last)
    (rest : InPlace graph shortName next last history) :
    InPlace graph shortName first last (.comment text next :: history) where
  inside := by
    intro happening isHappening
    rcases List.mem_cons.mp isHappening with rfl | later
    · exact ⟨further, inside⟩
    · have bounds := rest.inside happening later
      exact ⟨Nat.le_trans further bounds.1, bounds.2⟩
  ascending := by
    refine List.pairwise_cons.mpr ⟨?_, rest.ascending⟩
    exact fun happening later => (rest.inside happening later).1
  file := rest.file

/-- What is added at one line is in place, all of it, if what happens behind it is. No line
decreases within such additions, for they share one. -/
theorem added {gained : List Addition} (further : first ≤ next) (inside : next ≤ last)
    (place : ∀ addition ∈ gained, graph.location addition = ⟨shortName, next⟩)
    (rest : InPlace graph shortName next last history) :
    InPlace graph shortName first last (gained.map .added ++ history) := by
  have line (happening : Happening) (isGained : happening ∈ gained.map .added) :
      happening.line graph = next := by
    rcases List.mem_map.mp isGained with ⟨addition, isAddition, rfl⟩
    exact congrArg Location.line (place addition isAddition)
  constructor
  · intro happening isHappening
    rcases List.mem_append.mp isHappening with isGained | later
    · rw [line happening isGained]
      exact ⟨further, inside⟩
    · have bounds := rest.inside happening later
      exact ⟨Nat.le_trans further bounds.1, bounds.2⟩
  · refine List.pairwise_append.mpr ⟨?_, rest.ascending, ?_⟩
    · apply List.pairwise_of_forall_mem_list
      intro earlier isEarlier later isLater
      rw [line earlier isEarlier, line later isLater]
    · intro earlier isEarlier later isLater
      rw [line earlier isEarlier]
      exact (rest.inside later isLater).1
  · intro addition isAddition
    rw [List.filterMap_append, Happening.filterMap_addition?_added] at isAddition
    rcases List.mem_append.mp isAddition with isGained | later
    · exact congrArg Location.file (place addition isGained)
    · exact rest.file addition later

end InPlace

/-- Events that may follow a line add everything at that line or behind it. The induction goes along
the events, and each of them moves the first line that is still open. -/
theorem inPlace_history {last line : Nat} {waiting : String} {seen : Bool} {events : List Event}
    (sequel : Sequel last line waiting seen events) (state : Recording) (index : Nat)
    (shortName : String) {final : Graph}
    (isFinal : ((events.filterMap Event.recorded?).foldl (Recording.add index shortName)
      state).graph = final) :
    InPlace final shortName line last (Recording.history index shortName state events) := by
  induction sequel generalizing state with
  | nil => exact .nil
  | drop _ ih => exact ih state isFinal
  | silent further inside place description _ ih =>
      have gained := Recording.shown_gains_foldl state index shortName place description _ isFinal
      exact (ih _ isFinal).added further inside gained.1
  | takes further inside place description _ ih =>
      have gained := Recording.shown_gains_foldl state index shortName place description _ isFinal
      exact (ih _ isFinal).added further inside gained.1
  | fileComment further inside _ ih =>
      simp only [Recording.history, Recording.gains_fileDescription, List.map_nil, List.nil_append]
      exact (ih _ isFinal).comment further inside
  | comment further inside _ ih => exact (ih state isFinal).comment further inside

/-- Everything that happens while a file is read does so at one of its lines. The first of them has
number one, and the number of the last is that of the raw lines. -/
theorem inPlace_ofContent (graph : Graph) (languageSeen : Bool) (index : Nat) (file : String)
    (content : List UInt8) (mirror : Option (List UInt8)) (macros : Option MacroScope) :
    let reader := Reader.ofContent file content mirror macros
    InPlace (graph.classifyFile languageSeen index reader).graph (graph.file index).source.shortName
      1 (Text.lines (Text.Utf8.decode content)).length
      (graph.history languageSeen index reader) := by
  intro reader
  have sequel := FileOutcome.sequel_events (Reader.numbered_ofContent content mirror)
    (graph.file index).source.isHeader languageSeen .start reader
    (Reader.at_ofContent file content mirror macros) (Nat.le_max_left 1 _)
  rw [RawLine.length_ofContent] at sequel
  exact inPlace_history sequel ⟨graph, none⟩ index _ (graph_classifyFile ..).symm

/-- Whatever a file declares is located in it, at a line that has been counted in it, and the lines
never decrease. The events of the file follow one another from its first line on, so what they add
is in place. -/
theorem located_classifyFile {graph : Graph} {index : Nat} {path : String} {content : List UInt8}
    {mirror : Mirror} {macros : Option MacroScope} {reader : Reader} (languageSeen : Bool)
    (filed : (graph.file index).source = (InputFile.ofContent path content mirror).source)
    (opened : (InputFile.ofContent path content mirror).reader macros = .ok reader) :
    let source := (InputFile.ofContent path content mirror).source
    let after := (graph.classifyFile languageSeen index reader).graph
    let added := (graph.history languageSeen index reader).filterMap Happening.addition?
    Covers graph after (graph.history languageSeen index reader) ∧
      (∀ addition ∈ added, (after.location addition).file = source.shortName ∧
        1 ≤ (after.location addition).line ∧ (after.location addition).line ≤ source.lineCount) ∧
      (added.map fun addition => (after.location addition).line).Pairwise (· ≤ ·) := by
  intro source after added
  have isReader : reader = .ofContent source.shortName content mirror.content? macros := by
    unfold InputFile.reader at opened
    split at opened
    · cases opened
    · cases opened
      rfl
  have place := inPlace_ofContent graph languageSeen index source.shortName content mirror.content?
    macros
  rw [← isReader, filed] at place
  refine ⟨covers_history .., ?_, ?_⟩
  · intro addition isAdded
    obtain ⟨happening, isHappening, isAddition⟩ := List.mem_filterMap.mp isAdded
    cases happening with
    | comment text line => contradiction
    | added _ =>
        cases isAddition
        have bounds := place.inside (.added addition) isHappening
        exact ⟨place.file addition isAdded, bounds.1, bounds.2⟩
  · rw [List.pairwise_map, List.pairwise_filterMap]
    apply place.ascending.imp
    rintro (_ | earlier) (_ | later) further _ isEarlier _ isLater
    all_goals cases isEarlier <;> cases isLater
    exact further

/-- What the file declares is located in it, in a graph that has no other file. -/
theorem located_lampFile :
    ((ofFiles [lampFile.source]).file 0).source = lampFile.source ∧
    lampFile.reader none =
      .ok (.ofContent lampFile.source.shortName lampFile.content none none) ∧
    (let reader := Reader.ofContent lampFile.source.shortName lampFile.content none none
      let after := ((ofFiles [lampFile.source]).classifyFile false 0 reader).graph
      let history := (ofFiles [lampFile.source]).history false 0 reader
      let added := history.filterMap Happening.addition?
      Covers (ofFiles [lampFile.source]) after history ∧
        (∀ addition ∈ added, (after.location addition).file = lampFile.source.shortName ∧
          1 ≤ (after.location addition).line ∧
          (after.location addition).line ≤ lampFile.source.lineCount) ∧
        (added.map fun addition => (after.location addition).line).Pairwise (· ≤ ·)) :=
  ⟨rfl, rfl, located_classifyFile false rfl rfl⟩

end Graph

end TadsReference
