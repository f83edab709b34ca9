import TadsReference.Proofs.Graph.Locations

/-!
# Descriptions

The first block comment of a file describes the file. Each later one describes at most one
declaration or enumeration group, the next one behind it that has a description at all, and it is
forgotten once another comment is complete: `described_classifyFile`.
-/

namespace TadsReference

variable {last line : Nat} {waiting : String} {seen : Bool} {events : List Event}

theorem Entry.describe_of_line? {entry : Entry} (place : entry.line? = some line)
    (before : String) : entry.describe before = before := by
  cases entry <;> first | rfl | contradiction

/-- A file that has not been described takes its first comment. A later comment leaves the
description as it is, for it begins with no description only once. -/
theorem Sequel.describe (sequel : Sequel last line waiting seen events) (before : String) :
    (events.filterMap Event.recorded?).foldl Entry.describe before =
      if seen then before else (events.filterMap Event.comment?).head?.getD before := by
  induction sequel generalizing before with
  | nil => simp
  | drop _ ih => exact ih before
  | silent _ _ place _ _ ih =>
      simp only [List.filterMap_cons, Event.recorded?, Event.comment?, List.foldl_cons,
        Entry.describe_of_line? place]
      exact ih before
  | takes _ _ place _ _ ih =>
      simp only [List.filterMap_cons, Event.recorded?, Event.comment?, List.foldl_cons,
        Entry.describe_of_line? place]
      exact ih before
  | @fileComment _ _ _ text _ _ _ _ ih => exact ih text
  | comment _ _ _ ih => exact ih before

namespace Graph

variable {final : Graph} {history : List Happening} {gained : List Addition} {text : String}

/-- What happens while entries are recorded includes each comment of the file once, in the order in
which they are completed. -/
theorem Recording.comments_history (state : Recording) (index : Nat) (shortName : String)
    (events : List Event) :
    (Recording.history index shortName state events).filterMap Happening.comment? =
      events.filterMap Event.comment? := by
  induction events generalizing state with
  | nil => rfl
  | cons event events ih =>
      cases event with
      | comment text line =>
          simp only [Recording.history, List.filterMap_cons, Happening.comment?, Event.comment?, ih]
      | entry entry =>
          rw [Recording.history, List.filterMap_append, Happening.filterMap_comment?_added, ih]
          rfl

/-- The descriptions that what is added has. -/
def described (graph : Graph) (history : List Happening) : List String :=
  ((history.filterMap Happening.addition?).map graph.description).filter (· != "")

/-- The comments, and what is added with a description. -/
def told (graph : Graph) (history : List Happening) : List Happening :=
  history.filter (·.tells graph)

@[simp] theorem told_comment (graph : Graph) (text : String) (line : Nat)
    (history : List Happening) :
    graph.told (.comment text line :: history) = .comment text line :: graph.told history :=
  rfl

/-- Of several things added one after the other, those with a description come with the descriptions
that they have in the end. -/
theorem described_added (graph : Graph) (gained : List Addition) (history : List Happening) :
    graph.described (gained.map .added ++ history) =
      (gained.filter (graph.description · != "")).map graph.description ++
        graph.described history := by
  rw [described, List.filterMap_append, Happening.filterMap_addition?_added, List.map_append,
    List.filter_append, List.filter_map]
  rfl

theorem told_added (graph : Graph) (gained : List Addition) (history : List Happening) :
    graph.told (gained.map .added ++ history) =
      (gained.filter (graph.description · != "")).map .added ++ graph.told history := by
  rw [told, List.filter_append, List.filter_map]
  rfl

/-- Where no comment is waiting, the descriptions come from the comments that follow. -/
theorem described_of_unwaited {comments : List String}
    (sublist : (final.described history).Sublist ("" :: comments)) :
    (final.described history).Sublist comments := by
  rcases List.sublist_cons_iff.mp sublist with rest | ⟨others, isCons, _⟩
  · exact rest
  · have isDescription : "" ∈ final.described history := by
      rw [isCons]
      exact List.mem_cons_self
    simp [described] at isDescription

theorem description_ne_of_told {front rest : List Happening} {addition : Addition}
    (shape : final.told history = front ++ .added addition :: rest) :
    final.description addition ≠ "" := by
  have isTold : .added addition ∈ final.told history := by
    rw [shape]
    simp
  simpa [told, Happening.tells] using (List.mem_filter.mp isTold).2

/-- Of what an entry adds, one thing is told or nothing. -/
theorem filter_gained
    (few : ((gained.filter (final.description · != "")).map final.description).Sublist [text]) :
    gained.filter (final.description · != "") = [] ∨
      ∃ addition, gained.filter (final.description · != "") = [addition] ∧
        final.description addition = text := by
  rcases List.sublist_singleton.mp few with none | one
  · exact .inl (List.map_eq_nil_iff.mp none)
  · rcases List.map_eq_singleton_iff.mp one with ⟨addition, isGained, isText⟩
    exact .inr ⟨addition, isGained, isText⟩

theorem filter_gained_of_silent
    (few : ((gained.filter (final.description · != "")).map final.description).Sublist [""]) :
    gained.filter (final.description · != "") = [] := by
  rcases filter_gained few with none | ⟨addition, one, isEmpty⟩
  · exact none
  · have isGained : addition ∈ gained.filter (final.description · != "") := by
      rw [one]
      exact List.mem_singleton_self addition
    simp [isEmpty] at isGained

/-- What has descriptions takes them in order from the comment that is waiting and from those that
follow, but for the one that describes the file. The induction goes along the events of the file.
Each either completes a comment, which is then the one that is waiting, or adds something that takes
this one or leaves it. -/
theorem described_history (sequel : Sequel last line waiting seen events) (state : Recording)
    (index : Nat) (shortName : String)
    (isFinal : ((events.filterMap Event.recorded?).foldl (Recording.add index shortName)
      state).graph = final) :
    (final.described (Recording.history index shortName state events)).Sublist
      (waiting :: if seen then events.filterMap Event.comment?
        else (events.filterMap Event.comment?).tail) := by
  induction sequel generalizing state with
  | nil => simp [Recording.history, described]
  | drop _ ih => exact (described_of_unwaited (ih state isFinal)).cons _
  | silent _ _ place description _ ih =>
      have gained := (Recording.shown_gains_foldl state index shortName place description _
        isFinal).2
      rw [Recording.history, described_added, filter_gained_of_silent gained]
      exact ih _ isFinal
  | takes _ _ place description _ ih =>
      have gained := (Recording.shown_gains_foldl state index shortName place description _
        isFinal).2
      rw [Recording.history, described_added]
      exact gained.append (described_of_unwaited (ih _ isFinal))
  | fileComment _ _ _ ih =>
      simp only [Recording.history, Recording.gains_fileDescription, List.map_nil, List.nil_append]
      exact (described_of_unwaited (ih _ isFinal)).cons _
  | comment _ _ _ ih => exact (ih state isFinal).cons _

/-- Whatever has a description stands directly behind the comment that it takes it from, or takes
the one that is waiting at the start. What is added without a description in between neither takes
the comment nor makes it forgotten, so `told` leaves it out. -/
theorem origin_history (sequel : Sequel last line waiting seen events) (state : Recording)
    (index : Nat) (shortName : String)
    (isFinal : ((events.filterMap Event.recorded?).foldl (Recording.add index shortName)
      state).graph = final) {front rest : List Happening} {addition : Addition}
    (shape : final.told (Recording.history index shortName state events) =
      front ++ .added addition :: rest) :
    (front = [] ∧ final.description addition = waiting) ∨
      ∃ earlier text next, front = earlier ++ [.comment text next] ∧
        final.description addition = text ∧ (seen = false → earlier ≠ []) := by
  have filled := description_ne_of_told shape
  induction sequel generalizing state front with
  | nil => simp [Recording.history, told] at shape
  | drop _ ih =>
      rcases ih state isFinal shape with ⟨_, isEmpty⟩ | behind
      · exact absurd isEmpty filled
      · exact .inr behind
  | silent _ _ place description _ ih =>
      have gained := (Recording.shown_gains_foldl state index shortName place description _
        isFinal).2
      rw [Recording.history, told_added, filter_gained_of_silent gained] at shape
      exact ih _ isFinal shape
  | takes _ _ place description _ ih =>
      have gained := (Recording.shown_gains_foldl state index shortName place description _
        isFinal).2
      rw [Recording.history, told_added] at shape
      rcases filter_gained gained with none | ⟨first, one, isText⟩
      · rw [none] at shape
        rcases ih _ isFinal shape with ⟨_, isEmpty⟩ | behind
        · exact absurd isEmpty filled
        · exact .inr behind
      · rw [one] at shape
        cases front with
        | nil =>
            cases shape
            exact .inl ⟨rfl, isText⟩
        | cons other front =>
            rcases List.cons.inj shape with ⟨rfl, later⟩
            rcases ih _ isFinal later with ⟨_, isEmpty⟩ | ⟨earlier, text, next, rfl, isText, _⟩
            · exact absurd isEmpty filled
            · exact .inr ⟨_ :: earlier, text, next, rfl, isText, by simp⟩
  | fileComment _ _ _ ih =>
      simp only [Recording.history, Recording.gains_fileDescription, List.map_nil, List.nil_append,
        told_comment] at shape
      cases front with
      | nil => cases shape
      | cons other front =>
          rcases List.cons.inj shape with ⟨rfl, later⟩
          rcases ih _ isFinal later with ⟨_, isEmpty⟩ | ⟨earlier, text, next, rfl, isText, _⟩
          · exact absurd isEmpty filled
          · exact .inr ⟨_ :: earlier, text, next, rfl, isText, by simp⟩
  | comment _ _ _ ih =>
      rw [Recording.history, told_comment] at shape
      cases front with
      | nil => cases shape
      | cons other front =>
          rcases List.cons.inj shape with ⟨rfl, later⟩
          rcases ih state isFinal later with ⟨rfl, isText⟩ | ⟨earlier, text, next, rfl, isText, _⟩
          · exact .inr ⟨[], _, _, rfl, isText, by simp⟩
          · exact .inr ⟨_ :: earlier, text, next, rfl, isText, by simp⟩

/-- Whether the comments that are completed while a file is read describe the file and what is added
to the graph. -/
structure Describes (before after : Graph) (index : Nat) (history : List Happening) : Prop where
  covers : Covers before after history
  /-- The first comment describes the file. -/
  file : (after.files[index]?).map (·.description) = (before.files[index]?).map fun file =>
    (history.filterMap Happening.comment?).head?.getD file.description
  /-- The descriptions are taken from the other comments in order. -/
  sublist : (after.described history).Sublist (history.filterMap Happening.comment?).tail
  /-- Of all that has a description, each stands directly behind the comment that it takes it from,
  and that one is not the first. -/
  origin : ∀ front addition rest, after.told history = front ++ .added addition :: rest →
    ∃ earlier text line, earlier ≠ [] ∧ front = earlier ++ [.comment text line] ∧
      after.description addition = text ∧ line ≤ (after.location addition).line

/-- Each comment of a file describes the file or at most one thing that comes behind it, and none
outlasts the next comment. The history of a file starts with no comment waiting, and what has been
added last can only have taken a comment that stands in front of it. -/
theorem described_classifyFile (graph : Graph) (languageSeen : Bool) (index : Nat) (file : String)
    (content : List UInt8) (mirror : Option (List UInt8)) (macros : Option MacroScope) :
    let reader := Reader.ofContent file content mirror macros
    Describes graph (graph.classifyFile languageSeen index reader).graph index
      (graph.history languageSeen index reader) := by
  intro reader
  have sequel := FileOutcome.sequel_events (Reader.numbered_ofContent content mirror)
    (graph.file index).source.isHeader languageSeen .start reader
    (Reader.at_ofContent file content mirror macros) (Nat.le_max_left 1 _)
  have isFinal := (graph_classifyFile graph languageSeen index reader).symm
  have comments : (graph.history languageSeen index reader).filterMap Happening.comment? = _ :=
    Recording.comments_history ..
  refine ⟨covers_history .., ?_, ?_, ?_⟩
  · have described := Recording.descriptions_foldl
      ((FileOutcome.events (graph.file index).source.isHeader languageSeen .start reader).filterMap
        Event.recorded?) ⟨graph, none⟩ index (graph.file index).source.shortName
    rw [isFinal, List.getElem?_map, List.getElem?_map, Option.map_map] at described
    rw [described, comments]
    congr 1
    funext record
    exact sequel.describe record.description
  · rw [comments]
    exact described_of_unwaited (described_history sequel ⟨graph, none⟩ index _ isFinal)
  · intro front addition rest shape
    have place := inPlace_ofContent graph languageSeen index file content mirror macros
    have ascending : (front ++ .added addition :: rest).Pairwise fun earlier later =>
        earlier.line (graph.classifyFile languageSeen index reader).graph ≤
          later.line (graph.classifyFile languageSeen index reader).graph := by
      rw [← shape]
      exact place.ascending.sublist List.filter_sublist
    rcases origin_history sequel ⟨graph, none⟩ index _ isFinal shape with
      ⟨_, isEmpty⟩ | ⟨earlier, text, line, rfl, isText, notFirst⟩
    · exact absurd isEmpty (description_ne_of_told shape)
    · refine ⟨earlier, text, line, notFirst rfl, rfl, isText, ?_⟩
      exact (List.pairwise_append.mp ascending).2.2 (.comment text line) (by simp)
        (.added addition) List.mem_cons_self

end Graph

end TadsReference
