import TadsReference.Proofs.Graph.Catalogue
import TadsReference.Proofs.Graph.Coherence
import TadsReference.Proofs.Graph.Walk

/-!
# Scopes of macros

Of several files of one name the reading order takes an include to mean the last one in the list of
files, but macros are looked up in the first one that is read. Either way it is read earlier. So the
macros of all included files are complete when a file is opened, and the macros that the file sees
in the end are its own, followed by those that it saw then: `scopesSettled_of_order`.
-/

namespace TadsReference

open Relation

namespace Graph

variable {graph before after : Graph} {position target : Nat}

/-! ### Included files -/

/-- The file at one position includes the file at another one: the first of its name. -/
def IncludesFile (graph : Graph) (position target : Nat) : Prop :=
  target ∈ graph.includedFiles position

theorem fileIndex?_eq_findIdx? (graph : Graph) (name : String) :
    graph.fileIndex? name = (graph.files.map (·.source)).findIdx? (·.shortName == name) := by
  rw [List.findIdx?_map]
  rfl

theorem includedFiles_of_sources
    (sources : after.files.map (·.source) = before.files.map (·.source)) :
    after.includedFiles = before.includedFiles := by
  funext position
  have same : after.fileIndex? = before.fileIndex? := by
    funext name
    rw [fileIndex?_eq_findIdx?, fileIndex?_eq_findIdx?, sources]
  simp only [includedFiles, file_source_of_sources sources, same]

theorem includesFile_of_sources
    (sources : after.files.map (·.source) = before.files.map (·.source)) :
    after.IncludesFile = before.IncludesFile := by
  funext position target
  rw [IncludesFile, IncludesFile, includedFiles_of_sources sources]

theorem sources_ofFiles (sources : List SourceFile) :
    (ofFiles sources).files.map (·.source) = sources := by
  simp [ofFiles, Function.comp_def]

theorem file_ofFiles_source (sources : List SourceFile) (position : Nat) :
    ((ofFiles sources).file position).source = (sources[position]?).getD default := by
  simp only [file, ofFiles, List.getElem?_map]
  cases sources[position]? <;> rfl

/-- A file includes another one if it names it and no file in front of that one has the same
name. -/
theorem mem_includedFiles_ofFiles {sources : List SourceFile}
    (includes : (ofFiles sources).IncludesFile position target) :
    ∃ file, sources[position]? = some file ∧ ∃ name ∈ file.includes,
      sources.findIdx? (·.shortName == name) = some target := by
  simp only [IncludesFile, includedFiles, file_ofFiles_source, List.mem_filterMap,
    fileIndex?_eq_findIdx?, sources_ofFiles] at includes
  cases found : sources[position]? with
  | none =>
      rcases includes with ⟨name, isIncluded, _⟩
      rw [found] at isIncluded
      exact absurd isIncluded List.not_mem_nil
  | some file =>
      rw [found] at includes
      exact ⟨file, rfl, includes⟩

/-! ### The order of files -/

theorem findIdx?_le {Item : Type} {test : Item → Bool} {items : List Item} {first later : Nat}
    {item : Item} (isFirst : items.findIdx? test = some first)
    (isLater : items[later]? = some item) (passes : test item = true) : first ≤ later := by
  rcases List.findIdx?_eq_some_iff_getElem.mp isFirst with ⟨_, _, none⟩
  apply Nat.le_of_not_lt
  intro earlier
  rcases List.getElem?_eq_some_iff.mp isLater with ⟨inside, rfl⟩
  exact none later earlier passes

section Order

variable {files : List SourceFile} {order : List Nat}
  (ordered : ReadingOrder.positions files = .ok order)

include ordered

/-- A file that is included is read earlier, though the order may have been made for another file of
its name. The file that the order was made for is the last one of that name, and the first one does
not stand behind it. -/
theorem lt_of_includesFile
    (includes : (ofFiles (order.filterMap (files[·]?))).IncludesFile position target) :
    target < position := by
  rcases mem_includedFiles_ofFiles includes with ⟨file, found, name, isIncluded, isFirst⟩
  rcases ReadingOrder.exists_earlier_of_positions ordered found isIncluded
    with ⟨earlier, isEarlier, other, isOther, named⟩
  exact Nat.lt_of_le_of_lt (findIdx?_le isFirst isOther (by simpa using named)) isEarlier

theorem lt_of_reaches
    (reaches : TransGen (ofFiles (order.filterMap (files[·]?))).IncludesFile position target) :
    target < position := by
  induction reaches with
  | single includes => exact lt_of_includesFile ordered includes
  | tail _ includes ih => exact Nat.lt_trans (lt_of_includesFile ordered includes) ih

end Order

/-! ### Reading on -/

/-- The graph when the file at a position is opened: all files before it have been read. -/
def standing (expandsMacros : Bool) (inputs : List InputFile) (position : Nat) :
    Except Failure Graph :=
  readFrom expandsMacros (ofFiles (inputs.map (·.source))) false 0 (inputs.take position)

/-- The macros of the file at a position, without those of the files that it includes. -/
def ownMacros (graph : Graph) (position : Nat) : List MacroDefinition :=
  (graph.file position).macros.filterMap graph.macroDefinition?

section Reading

variable {expandsMacros languageSeen : Bool} {inputs front rest : List InputFile} {index : Nat}

/-- Reading files from one on is reading that file, with the macros that it sees by then, and then
the others. -/
theorem readFrom_cons {input : InputFile}
    (reads : readFrom expandsMacros graph languageSeen index (input :: rest) = .ok after) :
    ∃ seen, readFrom expandsMacros
      (graph.read ⟨index, languageSeen, input.source.shortName, input.content,
        input.mirror.content?, graph.scopeFor expandsMacros index⟩) seen (index + 1) rest =
          .ok after := by
  rw [readFrom] at reads
  cases starts : input.reader (graph.scopeFor expandsMacros index) with
  | error failure => simp [starts, bind, Except.bind] at reads
  | ok reader =>
      rw [exists_reading_of_reader starts] at starts
      simp only [starts, bind, Except.bind] at reads
      split at reads
      · contradiction
      · exact ⟨_, reads⟩

/-- A reading of several files can be cut between any two of them. The graph at the cut is what the
files in front of it have led to. -/
theorem exists_readFrom_append
    (reads : readFrom expandsMacros graph languageSeen index (front ++ rest) = .ok after) :
    ∃ middle seen, readFrom expandsMacros graph languageSeen index front = .ok middle ∧
      readFrom expandsMacros middle seen (index + front.length) rest = .ok after := by
  induction front generalizing graph languageSeen index with
  | nil => exact ⟨graph, languageSeen, rfl, reads⟩
  | cons input front ih =>
      rw [List.cons_append, readFrom] at reads
      rw [readFrom]
      cases starts : input.reader (graph.scopeFor expandsMacros index) with
      | error failure => simp [starts, bind, Except.bind] at reads
      | ok reader =>
          simp only [starts, bind, Except.bind] at reads ⊢
          cases ends : (graph.classifyFile languageSeen index reader).ending with
          | error failure => simp [ends] at reads
          | ok number =>
              simp only [ends] at reads ⊢
              rcases ih reads with ⟨middle, seen, readsFront, readsRest⟩
              refine ⟨middle, seen, readsFront, ?_⟩
              rwa [List.length_cons, Nat.add_comm front.length, ← Nat.add_assoc]

/-- Reading other files leaves a file as it is, and the macros of all declarations. -/
structure Leaves (position : Nat) (before after : Graph) : Prop where
  complete : after.Complete
  size : before.decls.size ≤ after.decls.size
  skeleton : ∀ id < before.decls.size, (after.decl id).skeleton = (before.decl id).skeleton
  sources : after.files.map (·.source) = before.files.map (·.source)
  file : after.file position = before.file position

/-- Readings of other files leave a file as it is, since each of them only touches the record of the
file that it reads. -/
theorem leaves_readAll (complete : graph.Complete) {readings : List FileReading}
    (others : ∀ reading ∈ readings, reading.index ≠ position) :
    Leaves position graph (graph.readAll readings) := by
  have start : Leaves position graph graph := ⟨complete, Nat.le_refl _, fun _ _ => rfl, rfl, rfl⟩
  apply List.foldlRecOn (motive := Leaves position graph) readings read start
  intro middle leaves reading isReading
  have grows := GrowsAt.of_steps (filing_read leaves.complete reading)
  constructor
  · exact leaves.complete.read reading
  · exact Nat.le_trans leaves.size grows.size
  · intro id inside
    rw [grows.skeleton id (Nat.lt_of_lt_of_le inside leaves.size), leaves.skeleton id inside]
  · exact grows.sources.trans leaves.sources
  · rw [grows.others position (Ne.symm (others reading isReading)), leaves.file]

end Reading

/-! ### Macros of one file -/

theorem macroDefinition?_eq (graph : Graph) (id : DeclId) :
    graph.macroDefinition? id = (graph.decl id).macroDefinition? :=
  rfl

/-- What a file lists has been declared. -/
theorem AllLocated.inside {id : DeclId} (located : graph.AllLocated) (listing : FileListing)
    (isListed : id ∈ (graph.file position).list listing) : id < graph.decls.size := by
  simp only [file] at isListed
  cases found : graph.files[position]? with
  | none =>
      rw [found] at isListed
      cases listing <;> exact absurd isListed List.not_mem_nil
  | some file =>
      rw [found] at isListed
      exact ((located file (List.mem_of_getElem? found)).decls listing id isListed).1

/-- The macros of a file are the same as long as its record is left alone and declarations keep
their definitions. -/
theorem Leaves.ownMacros (leaves : Leaves position before after) (located : before.AllLocated) :
    after.ownMacros position = before.ownMacros position := by
  simp only [Graph.ownMacros, leaves.file]
  apply List.filterMap_congr
  intro id isMacro
  have inside : id < before.decls.size := located.inside .macros isMacro
  rw [macroDefinition?_eq, macroDefinition?_eq,
    Decl.macroDefinition?_eq_of_skeleton_eq (leaves.skeleton id inside)]

/-- A file that has not been read has no macros. -/
theorem ownMacros_ofFiles (sources : List SourceFile) (position : Nat) :
    (ofFiles sources).ownMacros position = [] := by
  have macros : ((ofFiles sources).file position).macros = [] := by
    simp only [file, ofFiles, List.getElem?_map]
    cases sources[position]? <;> rfl
  rw [ownMacros, macros, List.filterMap_nil]

/-! ### Macros of a file and of those that it includes -/

theorem visibleMacros_eq (inside : position < graph.files.length) :
    graph.visibleMacros position = graph.ownMacros position ++
      (Walk.preorder graph.includedFiles graph.files.length [position]
        (graph.includedFiles position)).flatMap graph.ownMacros := by
  rw [visibleMacros, Walk.preorder, dif_pos ⟨inside, rfl⟩, List.flatMap_cons, List.append_nil]
  rfl

theorem transGen_of_mem_preorder
    (isVisited : target ∈ Walk.preorder graph.includedFiles graph.files.length [position]
      (graph.includedFiles position)) : TransGen graph.IncludesFile position target := by
  rcases Walk.mem_preorder_iff.mp isVisited with ⟨start, isIncluded, _, path⟩
  apply TransGen.head' isIncluded
  exact ReflTransGen.mono (fun _ _ step => step.1) _ _ path

/-- If the file itself had no macros and those that it includes are left alone, the file sees its
own macros in front of those that it saw. -/
theorem visibleMacros_of_leaves (sources : after.files.map (·.source) = before.files.map (·.source))
    (inside : position < before.files.length) (unread : before.ownMacros position = [])
    (leaves : ∀ target, TransGen before.IncludesFile position target →
      after.ownMacros target = before.ownMacros target) :
    after.visibleMacros position = after.ownMacros position ++ before.visibleMacros position := by
  have length : after.files.length = before.files.length := by
    simpa using congrArg List.length sources
  rw [visibleMacros_eq (by rwa [length]), visibleMacros_eq inside, unread, List.nil_append,
    includedFiles_of_sources sources, length]
  apply congrArg (after.ownMacros position ++ ·)
  apply List.flatMap_congr
  exact fun target isVisited => leaves target (transGen_of_mem_preorder isVisited)

/-! ### Reading in order -/

section Standing

variable {expandsMacros : Bool} {inputs : List InputFile} {started final : Graph}

theorem exists_readings_of_standing
    (stands : standing expandsMacros inputs position = .ok started) :
    ∃ readings, started = (ofFiles (inputs.map (·.source))).readAll readings ∧
      ∀ reading ∈ readings, reading.index < position := by
  rcases exists_readings_of_readFrom stands with ⟨readings, rfl, indices⟩
  refine ⟨readings, rfl, ?_⟩
  intro reading isReading
  have isIndex := List.mem_map_of_mem (f := (·.index)) isReading
  rw [indices, List.mem_range'_1, List.length_take] at isIndex
  omega

/-- Whatever is read later is read from some position on. -/
theorem exists_standing {later : Nat} (earlier : position ≤ later)
    (stands : standing expandsMacros inputs later = .ok final) :
    ∃ started readings, standing expandsMacros inputs position = .ok started ∧
      final = started.readAll readings ∧ ∀ reading ∈ readings, position ≤ reading.index := by
  have split : inputs.take later = inputs.take position ++ (inputs.take later).drop position := by
    have parts := List.take_append_drop position (inputs.take later)
    rw [List.take_take, Nat.min_eq_left earlier] at parts
    exact parts.symm
  rw [standing, split] at stands
  rcases exists_readFrom_append stands with ⟨started, seen, readsFront, readsRest⟩
  rcases exists_readings_of_readFrom readsRest with ⟨readings, rfl, indices⟩
  refine ⟨started, readings, readsFront, rfl, ?_⟩
  intro reading isReading
  have isIndex := List.mem_map_of_mem (f := (·.index)) isReading
  simp only [indices, List.mem_range'_1, List.length_take, List.length_drop] at isIndex
  omega

theorem holdings_of_standing (stands : standing expandsMacros inputs position = .ok started) :
    started.Holdings := by
  rcases exists_readings_of_standing stands with ⟨readings, rfl, _⟩
  rw [← run_reads]
  exact holdings_run _ _

theorem leaves_of_standing {later : Nat} (earlier : position < later)
    (stands : standing expandsMacros inputs later = .ok final) :
    ∃ done, standing expandsMacros inputs (position + 1) = .ok done ∧
      Leaves position done final ∧ done.AllLocated := by
  rcases exists_standing earlier stands with ⟨done, readings, standsDone, rfl, behind⟩
  have holdings := holdings_of_standing standsDone
  refine ⟨done, standsDone, leaves_readAll holdings.complete ?_, holdings.located⟩
  exact fun reading isReading => Nat.ne_of_gt (behind reading isReading)

theorem leaves_ofFiles (stands : standing expandsMacros inputs position = .ok started) :
    Leaves position (ofFiles (inputs.map (·.source))) started := by
  rcases exists_readings_of_standing stands with ⟨readings, rfl, front⟩
  apply leaves_readAll (complete_ofFiles _)
  exact fun reading isReading => Nat.ne_of_lt (front reading isReading)

theorem sources_of_standing (stands : standing expandsMacros inputs position = .ok started) :
    started.files.map (·.source) = inputs.map (·.source) :=
  (leaves_ofFiles stands).sources.trans (sources_ofFiles _)

/-- Between two positions stands the reading of one file, with the macros that it sees by then. -/
theorem exists_reading_of_standing (inside : position < inputs.length)
    (stands : standing expandsMacros inputs (position + 1) = .ok final) :
    ∃ started reading, standing expandsMacros inputs position = .ok started ∧
      reading.index = position ∧ reading.macros = started.scopeFor expandsMacros position ∧
        final = started.read reading := by
  rw [standing, List.take_succ_eq_append_getElem inside] at stands
  rcases exists_readFrom_append stands with ⟨started, seen, readsFront, readsLast⟩
  rcases readFrom_cons readsLast with ⟨_, ends⟩
  have index : 0 + (inputs.take position).length = position := by
    rw [Nat.zero_add, List.length_take, Nat.min_eq_left (Nat.le_of_lt inside)]
  rw [index] at ends
  exact ⟨started, _, readsFront, rfl, rfl, (Except.ok.inj ends).symm⟩

end Standing

/-- The macros that files see settle while the files are read in order. -/
structure ScopesSettled (expandsMacros : Bool) (inputs : List InputFile) : Prop where
  /-- Whatever a file includes, directly or not, stands in front of it. -/
  earlier : ∀ position target,
    TransGen (ofFiles (inputs.map (·.source))).IncludesFile position target → target < position
  /-- When a file is opened, all that it includes is as it was left when it had been read. -/
  finished : ∀ position started, standing expandsMacros inputs position = .ok started →
    ∀ target, TransGen (ofFiles (inputs.map (·.source))).IncludesFile position target →
      ∃ done, standing expandsMacros inputs (target + 1) = .ok done ∧
        started.file target = done.file target ∧
          started.ownMacros target = done.ownMacros target
  /-- In the end a file sees its own macros in front of those with which it was read. -/
  visible : ∀ final, ofOrdered expandsMacros inputs = .ok final → ∀ position < inputs.length,
    ∃ started reading, standing expandsMacros inputs position = .ok started ∧
      reading.index = position ∧ reading.macros = started.scopeFor expandsMacros position ∧
        standing expandsMacros inputs (position + 1) = .ok (started.read reading) ∧
          final.visibleMacros position =
            final.ownMacros position ++ started.visibleMacros position

/-- It is enough that inclusions only lead to earlier files. A file that is reached has been read
completely when this one is opened, so neither what was read since nor what is read later changes
its macros. This file itself has none until it is read, and then its own stand in front. -/
theorem scopesSettled_of_earlier {expandsMacros : Bool} {inputs : List InputFile}
    (earlier : ∀ position target,
      TransGen (ofFiles (inputs.map (·.source))).IncludesFile position target →
        target < position) : ScopesSettled expandsMacros inputs where
  earlier := earlier
  finished position started stands target reaches := by
    rcases leaves_of_standing (earlier position target reaches) stands
      with ⟨done, standsDone, leaves, located⟩
    exact ⟨done, standsDone, leaves.file, leaves.ownMacros located⟩
  visible final reads position inside := by
    have stands : standing expandsMacros inputs inputs.length = .ok final := by
      rwa [standing, List.take_length]
    rcases exists_standing inside stands with ⟨next, _, standsNext, _⟩
    rcases exists_reading_of_standing inside standsNext
      with ⟨started, reading, standsHere, index, macros, rfl⟩
    refine ⟨started, reading, standsHere, index, macros, standsNext, ?_⟩
    have sources := sources_of_standing standsHere
    have unread := (leaves_ofFiles standsHere).ownMacros (allLocated_ofFiles _)
    rw [ownMacros_ofFiles] at unread
    apply visibleMacros_of_leaves _ _ unread
    · intro target reaches
      rw [includesFile_of_sources (sources.trans (sources_ofFiles _).symm)] at reaches
      have isEarlier := earlier position target reaches
      rcases leaves_of_standing isEarlier standsHere with ⟨done, standsDone, leaves, located⟩
      rcases leaves_of_standing (Nat.lt_trans isEarlier inside) stands
        with ⟨other, standsOther, leavesLater, _⟩
      obtain rfl : done = other := Except.ok.inj (standsDone.symm.trans standsOther)
      rw [leavesLater.ownMacros located, leaves.ownMacros located]
    · rw [sources_of_standing stands, sources]
    · have count := congrArg List.length sources
      rw [List.length_map, List.length_map] at count
      rwa [count]

/-- In a reading order the macros of all files that a file includes are complete when it is opened,
whichever file of a name is taken, and nothing that is read later changes them. -/
theorem scopesSettled_of_order {files arranged : List SourceFile}
    (ordered : ReadingOrder.order files = .ok arranged) (expandsMacros : Bool)
    (inputs : List InputFile) (sources : inputs.map (·.source) = arranged) :
    ScopesSettled expandsMacros inputs := by
  apply scopesSettled_of_earlier
  rw [ReadingOrder.order] at ordered
  cases positions : ReadingOrder.positions files with
  | error failure => simp [positions, Except.map] at ordered
  | ok order =>
      rw [positions] at ordered
      obtain rfl := Except.ok.inj ordered
      rw [sources]
      exact fun position target => lt_of_reaches positions

/-- Two headers of one name, and a file that includes that name. -/
def doubledHeader : List InputFile :=
  [.ofContent "main.t" "#include \"size.h\"\nSIZE\n".toUTF8.toList .absent,
    .ofContent "small/size.h" "#define SIZE 1\n".toUTF8.toList .absent,
    .ofContent "large/size.h" "#define SIZE 9\n".toUTF8.toList .absent]

/-- The order takes the second header to be the one that is included, while macros are looked up in
the first one. -/
theorem scopesSettled_doubledHeader :
    ReadingOrder.order (doubledHeader.map (·.source)) =
        .ok ((doubledHeader.rotate 1).map (·.source)) ∧
      ScopesSettled true (doubledHeader.rotate 1) := by
  have ordered : ReadingOrder.order (doubledHeader.map (·.source)) =
      .ok ((doubledHeader.rotate 1).map (·.source)) := by
    decide +kernel
  exact ⟨ordered, scopesSettled_of_order ordered true (doubledHeader.rotate 1) rfl⟩

end Graph

end TadsReference
