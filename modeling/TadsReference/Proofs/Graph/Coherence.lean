import TadsReference.Graph.Build
import TadsReference.Proofs.Entry.Unexpanded
import TadsReference.Proofs.Graph.Collections
import TadsReference.Proofs.Graph.Notes
import TadsReference.Proofs.Source.ReadingOrder

/-!
# Graphs of libraries

The graph of a library is read from all its files in their order and then linked. Whatever it names
is there: `coherent_of_ofInputs`.
-/

namespace TadsReference

namespace Graph

open ReadingOrder

variable {graph : Graph} {id owner target member home : DeclId} {kind : MemberKind}

/-! ### Reading a library -/

/-- A reader of a file is started with the text of the file and with that of its mirror, if the
mirror can be read. -/
theorem exists_reading_of_reader {input : InputFile} {macros : Option MacroScope}
    {reader : Reader} (starts : input.reader macros = .ok reader) :
    reader = Reader.ofContent input.source.shortName input.content input.mirror.content?
      macros := by
  rw [InputFile.reader] at starts
  split at starts
  · contradiction
  · exact (Except.ok.inj starts).symm

/-- The files are read one after the other, each into the record at its position. The induction goes
along the files, and a file that cannot be read ends the reading with its failure. -/
theorem exists_readings_of_readFrom {expandsMacros languageSeen : Bool} {graph after : Graph}
    {index : Nat} {inputs : List InputFile}
    (reads : readFrom expandsMacros graph languageSeen index inputs = .ok after) :
    ∃ readings, after = graph.readAll readings ∧
      readings.map (·.index) = List.range' index inputs.length := by
  induction inputs generalizing graph languageSeen index with
  | nil => exact ⟨[], (Except.ok.inj reads).symm, rfl⟩
  | cons input inputs ih =>
      rw [readFrom] at reads
      cases starts : input.reader (graph.scopeFor expandsMacros index) with
      | error failure => simp [starts, bind, Except.bind] at reads
      | ok reader =>
          rw [exists_reading_of_reader starts] at starts
          simp only [starts, bind, Except.bind] at reads
          split at reads
          · contradiction
          · rcases ih reads with ⟨readings, rfl, indices⟩
            refine ⟨⟨index, languageSeen, input.source.shortName, input.content,
              input.mirror.content?, graph.scopeFor expandsMacros index⟩ :: readings, rfl, ?_⟩
            rw [List.map_cons, indices, List.length_cons, List.range'_succ]

/-- The graph of a library is read from its files, in an order in which all includes are known, and
then linked. What is said of every session of readings with a link behind it is therefore true of
the graph of a library. -/
theorem exists_readings_of_ofInputs {expandsMacros : Bool} {inputs : List InputFile}
    (built : ofInputs expandsMacros inputs = .ok graph) :
    ∃ files readings, files.Perm (inputs.map (·.source)) ∧
      (∀ file ∈ files, AllKnown files file) ∧
        (∀ reading ∈ readings, reading.index < files.length) ∧
          graph = ((ofFiles files).readAll readings).link := by
  rw [ofInputs] at built
  cases orders : positions (inputs.map (·.source)) with
  | error failure => simp [orders, bind, Except.bind] at built
  | ok order =>
      simp only [orders, bind, Except.bind] at built
      cases reads : ofOrdered expandsMacros (order.filterMap (inputs[·]?)) with
      | error failure => simp [reads] at built
      | ok unlinked =>
          simp only [reads] at built
          rcases allKnown_of_positions orders with ⟨known, complete⟩
          rcases exists_readings_of_readFrom reads with ⟨readings, rfl, indices⟩
          rw [List.length_map] at complete
          have perm := (complete.filterMap (inputs[·]?)).trans (.of_eq (filterMap_range inputs))
          have sources := perm.map (·.source)
          refine ⟨_, readings, sources, ?_, ?_, (Except.ok.inj built).symm⟩
          · intro file isFile included isIncluded
            rcases known file (sources.mem_iff.mp isFile) included isIncluded
              with ⟨other, isOther, named⟩
            exact ⟨other, sources.mem_iff.mpr isOther, named⟩
          · intro reading isReading
            have index := List.mem_map_of_mem (f := (·.index)) isReading
            rw [indices, List.mem_range'_1] at index
            simpa using index.2

/-- A file without a mirror, or with one that can be read, is opened. -/
theorem reader_of_readable {input : InputFile} {macros : Option MacroScope}
    (readable : ∀ fault, input.mirror ≠ .unreadable fault) :
    input.reader macros = .ok (Reader.ofContent input.source.shortName input.content
      input.mirror.content? macros) := by
  unfold InputFile.reader
  split
  · next fault _ _ isUnreadable _ => exact (readable fault isUnreadable).elim
  · rfl

/-- Without macros no file breaks a reading off, so only a mirror that cannot be read does. Such a
reader never looks ahead, so the end of the file is the only thing that it can fail at, and that is
no failure of the library. -/
theorem exists_readFrom {inputs : List InputFile}
    (readable : ∀ input ∈ inputs, ∀ fault, input.mirror ≠ .unreadable fault) (graph : Graph)
    (languageSeen : Bool) (index : Nat) :
    ∃ after, readFrom false graph languageSeen index inputs = .ok after := by
  induction inputs generalizing graph languageSeen index with
  | nil => exact ⟨graph, rfl⟩
  | cons input inputs ih =>
      simp only [List.forall_mem_cons] at readable
      let reader := Reader.ofContent input.source.shortName input.content input.mirror.content? none
      have starts : input.reader none = .ok reader := reader_of_readable readable.1
      have unexpanded : reader.macros = none := rfl
      rcases FileOutcome.exists_ending_of_unexpanded (graph.file index).source.isHeader
        languageSeen unexpanded with ⟨number, ending⟩
      rw [readFrom]
      simp only [scopeFor, Bool.false_eq_true, if_false, starts, classifyFile, ending, bind,
        Except.bind]
      apply ih readable.2

/-- Without macros a library is built, if its files can be ordered and their mirrors read. -/
theorem exists_ofInputs {inputs : List InputFile} {order : List Nat}
    (ordered : positions (inputs.map (·.source)) = .ok order)
    (readable : ∀ input ∈ inputs, ∀ fault, input.mirror ≠ .unreadable fault) :
    ∃ graph, ofInputs false inputs = .ok graph := by
  have arranged : ∀ input ∈ order.filterMap (inputs[·]?), input ∈ inputs := by
    intro input isInput
    rcases List.mem_filterMap.mp isInput with ⟨position, _, found⟩
    exact List.mem_of_getElem? found
  rcases exists_readFrom (fun input isInput => readable input (arranged input isInput))
    (ofFiles ((order.filterMap (inputs[·]?)).map (·.source))) false 0 with ⟨after, read⟩
  refine ⟨after.link, ?_⟩
  simp [ofInputs, ordered, ofOrdered, read, bind, Except.bind, pure, Except.pure]

/-! ### Homes of members -/

theorem page?_of_owner? (owned : (graph.decl id).owner? = some owner) :
    graph.page? id = graph.blockPage? owner := by
  rcases shown : graph.decl id with ⟨_, _, _, kind⟩
  rw [shown] at owned
  cases kind <;> simp_all [Decl.owner?, Decl.member?, page?]

/-- A `modify` block has no page either, and what it holds is shown on the page of the block that it
modifies. -/
theorem blockPage?_of_target? (aims : (graph.decl id).target? = some target) :
    graph.blockPage? id = (graph.decl target).ownPage? := by
  rcases shown : graph.decl id with ⟨_, _, _, kind⟩
  rw [shown] at aims
  cases kind <;> simp_all [Decl.target?, blockPage?]

theorem page?_of_isBlock (isBlock : (graph.decl id).isBlock = true) :
    graph.page? id = (graph.decl id).ownPage? ∧ graph.blockPage? id = (graph.decl id).ownPage? := by
  rcases shown : graph.decl id with ⟨_, _, _, kind⟩
  rw [shown] at isBlock
  cases kind <;> simp_all [Decl.isBlock, Decl.block?, page?, blockPage?]

section Unlinked

variable (unlinked : graph.Unlinked)

include unlinked

/-- A member that has its place in a class or an object is shown on its page. -/
theorem page?_link_of_mem_mergedMembers (isBlock : (graph.decl home).isBlock = true)
    (isMember : member ∈ graph.mergedMembers home kind) :
    graph.link.page? member = graph.link.page? home := by
  have stillBlock : (graph.link.decl home).isBlock = true := by
    rwa [(keeps_head_link graph).isBlock]
  rw [(page?_of_isBlock stillBlock).1]
  rcases mem_mergedMembers_cases unlinked isMember
    with ⟨_, owned | ⟨modification, isListed, owned, denotes⟩⟩
  · rw [← keeps_owner?_link graph] at owned
    rw [page?_of_owner? owned, (page?_of_isBlock stillBlock).2]
  · rw [← keeps_owner?_link graph] at owned
    rw [← findBlock?_sortCollections_eq_some_iff unlinked, ← target?_link unlinked isListed]
      at denotes
    rw [page?_of_owner? owned, blockPage?_of_target? denotes]

/-- Whoever has a member placed with it, but for `modify` blocks, is a class or an object. -/
theorem isBlock_of_mem_mergedMembers (notModification : (graph.decl home).kindLabel ≠ "modify")
    (isMember : member ∈ graph.mergedMembers home kind) :
    (graph.decl home).isBlock = true := by
  rcases mem_mergedMembers_cases unlinked isMember with ⟨_, owned | ⟨_, _, _, denotes⟩⟩
  · have takes := (unlinked.owners member home owned).2.1
    simpa [Decl.takesMembers, notModification] using takes
  · exact denotes.isBlock unlinked

/-- Every member on a page of its own kind belongs to a class or an object. -/
theorem exists_home_of_mem_members_link
    (notModification : (graph.link.decl id).kindLabel ≠ "modify")
    (isMember : member ∈ (graph.link.decl id).members kind) :
    member < graph.decls.size ∧ ∃ home, (graph.link.decl home).isBlock = true ∧
      graph.link.page? member = graph.link.page? home := by
  rcases mem_members_link unlinked isMember with ⟨home, isPlaced, isHome⟩
  have isBlock : (graph.decl home).isBlock = true := by
    rcases isHome with rfl | isClass
    · rw [(keeps_head_link graph).kindLabel] at notModification
      exact isBlock_of_mem_mergedMembers unlinked notModification isPlaced
    · rw [Decl.isBlock_iff, ← Decl.isClass_iff]
      exact .inl isClass
  rcases exists_owner_of_mem_mergedMembers unlinked isPlaced with ⟨owner, owned⟩
  refine ⟨Unlinked.lt_nextId_of_owner? owned, home, ?_,
    page?_link_of_mem_mergedMembers unlinked isBlock isPlaced⟩
  rwa [(keeps_head_link graph).isBlock]

/-! ### Places of notes -/

/-- A member that is noted as modified by linking is a member of some block, and those have all been
declared. -/
theorem lt_size_of_mem_modifications_link
    (noted : member ∈ (graph.link.decl id).modifications) : member < graph.decls.size := by
  rcases notes_of_mem_modifications noted with isBlock | owned
  · rw [(keeps_head_link graph).isBlock] at isBlock
    rw [(notes_link_of_isBlock unlinked isBlock).1] at noted
    have listed := (List.mem_filter.mp noted).1
    exact ((unlinked.mem_listed .modifications).mp listed).1
  · rw [keeps_owner?_link graph] at owned
    rcases Option.isSome_iff_exists.mp owned with ⟨owner, owned⟩
    rw [(notes_link_of_member unlinked owned).1] at noted
    rcases List.mem_map.mp noted with ⟨offer, isNoted, rfl⟩
    rcases List.mem_flatMap.mp (List.mem_filter.mp isNoted).1 with ⟨modification, _, isOffer⟩
    have isMember := (mem_offersOf.mp isOffer).2
    rw [decl_sortCollections, unlinked.mem_members] at isMember
    exact Unlinked.lt_nextId_of_owner? isMember.1

/-- A place of a modification is where the block stands that modifies, so it is in a file of the
graph. -/
theorem mem_modifiedAt_link {location : Location}
    (noted : location ∈ (graph.link.decl id).modifiedAt) :
    ∃ note < graph.link.decls.size, (graph.link.decl note).location = location := by
  have places : (graph.link.decl id).modifiedAt =
      (graph.link.decl id).modifications.map fun note => (graph.decl note).location := by
    rcases notes_of_mem_modifiedAt noted with isBlock | owned
    · rw [(keeps_head_link graph).isBlock] at isBlock
      exact (notes_link_of_isBlock unlinked isBlock).2
    · rw [keeps_owner?_link graph] at owned
      rcases Option.isSome_iff_exists.mp owned with ⟨owner, owned⟩
      exact (notes_link_of_member unlinked owned).2
  rw [places] at noted
  rcases List.mem_map.mp noted with ⟨note, isNote, rfl⟩
  refine ⟨note, ?_, (keeps_head_link graph).location note⟩
  rw [size_link]
  exact lt_size_of_mem_modifications_link unlinked isNote

end Unlinked

/-! ### Everything that is named -/

/-- Whatever a graph names is there, and shown on some page. -/
structure Coherent (graph : Graph) : Prop where
  complete : graph.Complete
  mirrored : graph.Mirrored
  anchored : graph.Anchored
  enums : ∀ id ∈ graph.enums, graph.Cites id
  rules : ∀ production rule, rule ∈ (graph.decl production).matchClasses →
    (graph.decl rule).isClass = true
  homes : ∀ id, (graph.decl id).kindLabel ≠ "modify" →
    ∀ kind, ∀ member ∈ (graph.decl id).members kind, member < graph.decls.size ∧
      ∃ home, (graph.decl home).isBlock = true ∧ graph.page? member = graph.page? home
  modified : ∀ id, ∀ location ∈ (graph.decl id).modifiedAt, location.file ∈ graph.shortNames
  noted : ∀ id, ∀ note ∈ (graph.decl id).modifications, note < graph.decls.size
  included : ∀ file ∈ graph.files, ∀ name ∈ file.source.includes, name ∈ graph.shortNames

/-- Whatever the graph of a library names is there. Its files are those of the library. The graph
comes from readings that are anchored in the files, and linking keeps what is anchored and adds only
notes of declarations that are there. -/
theorem coherent_of_ofInputs {expandsMacros : Bool} {inputs : List InputFile}
    (built : ofInputs expandsMacros inputs = .ok graph) :
    graph.Coherent ∧ (graph.files.map (·.source)).Perm (inputs.map (·.source)) := by
  rcases exists_readings_of_ofInputs built with ⟨files, readings, perm, known, inside, rfl⟩
  have unlinked := unlinked_readAll files readings
  rcases anchored_readAll inside with ⟨anchored, sources⟩
  have sorted := (Rearranged.link ((ofFiles files).readAll readings)).sources
  rw [sources] at sorted
  refine ⟨?_, sorted.trans perm⟩
  have run := run_reads (ofFiles files) readings
  constructor
  · rw [← run]
    exact (complete_run files _).link
  · rw [← run]
    exact ((mirrored_ofFiles files).run _).link
  · exact anchored.link
  · exact fun id => cites_of_mem_enums_link
  · intro production rule isRule
    rw [(keeps_head_link _).isClass]
    exact unlinked.rules production rule (mem_matchClasses_link unlinked isRule)
  · intro id notModification kind member isMember
    rw [size_link]
    exact exists_home_of_mem_members_link unlinked notModification isMember
  · intro id location isNoted
    rcases mem_modifiedAt_link unlinked isNoted with ⟨note, inside, rfl⟩
    exact (anchored.link.placed note inside).file
  · intro id note isNoted
    rw [size_link]
    exact lt_size_of_mem_modifications_link unlinked isNoted
  · intro file isFile included isIncluded
    have isSource := sorted.mem_iff.mp (List.mem_map_of_mem isFile)
    rcases known file.source isSource included isIncluded with ⟨other, isOther, rfl⟩
    rw [shortNames_eq_map_sources]
    exact List.mem_map_of_mem (sorted.mem_iff.mpr isOther)

end Graph

end TadsReference
