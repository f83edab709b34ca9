import TadsReference.Proofs.Entry.LanguageCalls
import TadsReference.Proofs.Graph.Owners
import TadsReference.Proofs.Graph.QuietEnds

/-!
# Accounts of files

The account of a file is what it declares, apart from what depends on where the file stands among
others: names of pages, and numbers of declarations. Owners and groups are given by their places
among what the file declares. Whatever has been read before, the same file leaves the same account:
`sameAccount_readPlain`.
-/

namespace TadsReference

/-- What a declaration is by its kind, with the places of its owner and of its group. -/
inductive AccountKind where
  | classBlock (bases : List BaseRef) (intrinsic action : Bool) (rule macroCall : Option String)
  | objectBlock (bases : List BaseRef) (transient action : Bool)
  | modifyBlock
  | method (owner : Option Nat) (overridden interfaceOnly : Bool) (parameters : List String)
  | property (owner : Option Nat) (overridden interfaceOnly : Bool)
  | function (parameters : List String)
  | macroDefinition (parameters : List String) (body : String)
  | template (body : String)
  | constant (group : Option Nat)
  | message (kind : MessageKind) (text : String)
deriving DecidableEq

/-- What a file says of one of its declarations. -/
structure Account where
  name : String
  description : String
  location : Location
  kind : AccountKind
deriving DecidableEq

namespace Decl

/-- The kind of a declaration in its account, with owners and groups given by their places. A
production has none, since no line of a file declares it. -/
def accountKind? (owners : DeclId → Option Nat) (groups : GroupId → Option Nat) (decl : Decl) :
    Option AccountKind :=
  match decl.kind with
  | .classDecl details =>
      some (.classBlock details.block.bases details.intrinsic details.action
        (details.grammar.map (·.rule)) details.macroCall)
  | .objectDecl details =>
      some (.objectBlock details.block.bases details.transient details.action)
  | .production _ => none
  | .modifyDecl _ => some .modifyBlock
  | .function parameters => some (.function parameters)
  | .macroDecl parameters body => some (.macroDefinition parameters body)
  | .template body => some (.template body)
  | .method details parameters =>
      some (.method (owners details.owner) details.overridden details.interfaceOnly parameters)
  | .property details =>
      some (.property (owners details.owner) details.overridden details.interfaceOnly)
  | .enumMember group => some (.constant (groups group))
  | .message kind text => some (.message kind text)

/-- The account of a declaration that is not a production. -/
def account? (owners : DeclId → Option Nat) (groups : GroupId → Option Nat) (decl : Decl) :
    Option Account :=
  (decl.accountKind? owners groups).map fun kind =>
    ⟨decl.name, decl.description, decl.location, kind⟩

variable {left right decl : Decl} {owners others : DeclId → Option Nat}
  {groups : GroupId → Option Nat}

/-- An account says no more of a declaration than what was written of it, so what linking and later
lines note leaves it alone. -/
theorem account?_eq_of_written_eq (same : left.written = right.written) :
    left.account? owners groups = right.account? owners groups := by
  rcases left with ⟨leftName, leftDescription, leftLocation, leftKind⟩
  rcases right with ⟨rightName, rightDescription, rightLocation, rightKind⟩
  cases leftKind <;> cases rightKind <;>
    simp_all [written, skeleton, DeclKind.skeleton, bases, block?, overridden, member?, account?,
      accountKind?]

/-- Owners are asked for one declaration only, namely for the owner of the declaration that the
account is of. -/
theorem account?_congr (same : ∀ owner, decl.owner? = some owner → owners owner = others owner) :
    decl.account? owners groups = decl.account? others groups := by
  rcases decl with ⟨_, _, _, kind⟩
  cases kind <;> simp_all [owner?, member?, account?, accountKind?]

theorem isSome_account? : (decl.account? owners groups).isSome = (decl.kindLabel != "grammar") := by
  rcases decl with ⟨_, _, _, kind⟩
  cases kind <;> simp [account?, accountKind?, kindLabel]

end Decl

/-- The description of a file behind an entry. -/
def Entry.describe (before : String) : Entry → String
  | .fileDescription text => text
  | _ => before

namespace Graph

/-- The declarations that have been added since a graph had so many. -/
def since (graph : Graph) (start : Nat) : List Decl :=
  graph.decls.toList.drop start

/-- The place of a declaration among those that have been added since a graph had so many,
productions aside. -/
def placeSince (graph : Graph) (start : Nat) (id : DeclId) : Option Nat :=
  if start ≤ id then
    some (((graph.since start).take (id - start)).countP (·.kindLabel != "grammar"))
  else none

/-- The place of a group among those that have been added since a graph had so many. -/
def groupPlaceSince (start : Nat) (group : GroupId) : Option Nat :=
  if start ≤ group then some (group - start) else none

/-- The account of all that has been added to a graph. -/
def accounts (before after : Graph) : List Account :=
  (after.since before.decls.size).filterMap
    (Decl.account? (after.placeSince before.decls.size) (groupPlaceSince before.groups.size))

end Graph

/-- The account of the entries of a file so far, with the place of the last block and with the
number of groups. -/
structure Tally where
  accounts : List Account
  owner : Option Nat
  groups : Nat

namespace Tally

/-- The account of a file of which nothing has been read. -/
def start : Tally where
  accounts := []
  owner := none
  groups := 0

/-- Notes a declaration. -/
def note (tally : Tally) (account : Account) : Tally :=
  { tally with accounts := tally.accounts ++ [account] }

/-- Notes a block, which takes the members that follow. -/
def openBlock (tally : Tally) (account : Account) : Tally :=
  { tally.note account with owner := some tally.accounts.length }

/-- Notes what a line declares. A block takes the members that follow, and a member that follows no
block is not noted. -/
def declare (tally : Tally) (account : AccountKind → Account) : Declared → Tally
  | .classBlock head =>
      tally.openBlock (account
        (.classBlock (head.bases.map .name) head.intrinsic head.action head.rule
        head.macroCall))
  | .objectBlock head =>
      tally.openBlock (account (.objectBlock (head.bases.map .name) head.transient head.action))
  | .modifyBlock => tally.openBlock (account .modifyBlock)
  | .property interfaceOnly =>
      match tally.owner with
      | none => tally
      | some owner => tally.note (account (.property (some owner) false interfaceOnly))
  | .method parameters interfaceOnly =>
      match tally.owner with
      | none => tally
      | some owner => tally.note (account (.method (some owner) false interfaceOnly parameters))
  | .function parameters => tally.note (account (.function parameters))
  | .macroDefinition parameters body => tally.note (account (.macroDefinition parameters body))
  | .template body => tally.note (account (.template body))
  | .message kind text => tally.note (account (.message kind text))

/-- Notes an entry. -/
def add (shortName : String) (tally : Tally) : Entry → Tally
  | .fileDescription _ => tally
  | .declaration name description line declared =>
      tally.declare (⟨name, description, ⟨shortName, line⟩, ·⟩) declared
  | .enumGroup _ line members =>
      { tally with
        accounts := tally.accounts ++
          members.map (⟨·, "", ⟨shortName, line⟩, .constant (some tally.groups)⟩)
        groups := tally.groups + 1 }

end Tally

namespace Graph

variable {base graph after : Graph} {start : Nat} {added : List Decl} {id : DeclId}

/-! ### Accounts of graphs that grow -/

/-- A view that sees no more than another one shows the same of lists that look the same. -/
theorem filterMap_eq_of_map_eq {Item Seen Shown : Type} {view : Item → Seen}
    {show? : Item → Option Shown}
    (sees : ∀ left right, view left = view right → show? left = show? right)
    {left right : List Item} (same : left.map view = right.map view) :
    left.filterMap show? = right.filterMap show? := by
  induction left generalizing right with
  | nil =>
      obtain rfl : right = [] := by simpa using same.symm
      rfl
  | cons first left ih =>
      cases right with
      | nil => simp at same
      | cons other right =>
          simp only [List.map_cons, List.cons.injEq] at same
          simp only [List.filterMap_cons, sees _ _ same.1, ih same.2]

theorem length_since (graph : Graph) (start : Nat) :
    (graph.since start).length = graph.decls.size - start := by
  simp [since]

/-- What has been added since grows by what is added now. -/
theorem written_since (adds : Adds graph added after) (large : start ≤ graph.decls.size) :
    (after.since start).map Decl.written =
      (graph.since start ++ added).map Decl.written := by
  simp only [since, List.map_drop, List.map_append]
  rw [adds, List.drop_append_of_le_length (by simpa using large)]

/-- How many declarations are no productions can be seen from what was written of them. -/
theorem countP_of_written {left right : List Decl}
    (same : left.map Decl.written = right.map Decl.written) :
    left.countP (·.kindLabel != "grammar") = right.countP (·.kindLabel != "grammar") := by
  have label (decl : Decl) : decl.written.1.kindLabel = decl.kindLabel :=
    congrArg (·.2.2.2) decl.head_skeleton
  have count (decls : List Decl) :
      (decls.map Decl.written).countP (·.1.kindLabel != "grammar") =
        decls.countP (·.kindLabel != "grammar") := by
    rw [List.countP_map]
    congr 1
    funext decl
    simp only [Function.comp_apply, label]
  rw [← count, same, count]

/-- What is added does not move what has been there. A place counts only what stands in front of it,
and additions stand behind. -/
theorem placeSince_of_adds (adds : Adds graph added after) (large : start ≤ graph.decls.size)
    (inside : id ≤ graph.decls.size) : after.placeSince start id = graph.placeSince start id := by
  have front : (graph.since start ++ added).take (id - start) =
      (graph.since start).take (id - start) := by
    apply List.take_append_of_le_length
    rw [length_since]
    exact Nat.sub_le_sub_right inside start
  have same := congrArg (·.take (id - start)) (written_since adds large)
  simp only [← List.map_take, front] at same
  simp only [placeSince, countP_of_written same]

theorem length_accounts (base after : Graph) :
    (accounts base after).length =
      (after.since base.decls.size).countP (·.kindLabel != "grammar") := by
  rw [accounts, List.length_filterMap_eq_countP]
  congr 1
  funext decl
  exact Decl.isSome_account?

/-- The last declaration of all has the last place. It takes members, so it is no production and
counts as a place itself. -/
theorem placeSince_newest {owner : DeclId} (isNew : base.decls.size ≤ owner)
    (newest : owner + 1 = after.decls.size) (takes : (after.decl owner).takesMembers = true) :
    ∃ place, after.placeSince base.decls.size owner = some place ∧
      (accounts base after).length = place + 1 := by
  refine ⟨_, if_pos isNew, ?_⟩
  have notProduction : (after.decl owner).kindLabel ≠ "grammar" := by
    intro label
    rw [Decl.takesMembers, Bool.or_eq_true, Decl.isBlock_iff, label] at takes
    simp at takes
  have inside : owner < after.decls.size := Nat.lt_of_succ_le (Nat.le_of_eq newest)
  have last : (after.since base.decls.size).drop (owner - base.decls.size) =
      [after.decl owner] := by
    rw [since, List.drop_drop, Nat.add_sub_cancel' isNew,
      List.drop_eq_getElem_cons (by simpa using inside), List.drop_of_length_le]
    · simp [decl, inside]
    · simpa using Nat.le_of_eq newest.symm
  have count := congrArg (List.countP (·.kindLabel != "grammar"))
    (List.take_append_drop (owner - base.decls.size) (after.since base.decls.size))
  rw [last, List.countP_append] at count
  rw [length_accounts, ← count]
  simp [notProduction]

/-- The account of what has been there stays, if it names none of what is added. Its owners then
keep their places, and so do its groups, since groups are only added as well. -/
theorem accounts_of_adds (adds : Adds graph added after)
    (large : base.decls.size ≤ graph.decls.size)
    (inside : ∀ decl ∈ graph.since base.decls.size ++ added, ∀ owner, decl.owner? = some owner →
      owner < graph.decls.size) :
    accounts base after = accounts base graph ++ added.filterMap
      (Decl.account? (graph.placeSince base.decls.size) (groupPlaceSince base.groups.size)) := by
  rw [accounts, filterMap_eq_of_map_eq (fun _ _ => Decl.account?_eq_of_written_eq)
    (written_since adds large), accounts, ← List.filterMap_append]
  apply List.filterMap_congr
  intro decl isDecl
  apply Decl.account?_congr
  intro owner owned
  exact placeSince_of_adds adds large (Nat.le_of_lt (inside decl isDecl owner owned))

/-! ### Accounts of entries -/

namespace Recording

variable {state : Recording} {tally : Tally}

/-- A tally is the account of what has been recorded. -/
structure Tallied (base : Graph) (state : Recording) (tally : Tally) : Prop where
  accounts : Graph.accounts base state.graph = tally.accounts
  owner : state.owner.map (state.graph.placeSince base.decls.size) = tally.owner.map some
  groups : state.graph.groups.size = base.groups.size + tally.groups

/-- Nothing has been added to the graph with which the reading of a file begins, and its tally is
empty. -/
theorem tallied_start (base : Graph) : Tallied base ⟨base, none⟩ .start where
  accounts := by
    have none : base.since base.decls.size = [] := by simp [since]
    rw [Graph.accounts, none]
    rfl
  owner := rfl
  groups := rfl

/-- The members that are added come to what the tally says of them. The cases are those of entries
and of what a line declares, and a production that comes in between has no account. -/
theorem Tallied.accounts_add (tallied : Tallied base state tally) (shortName : String)
    (entry : Entry) :
    (tally.add shortName entry).accounts = tally.accounts ++
      (state.entryAdditions shortName entry).filterMap (Decl.account?
        (state.graph.placeSince base.decls.size) (groupPlaceSince base.groups.size)) := by
  have noProduction (name : String) (location : Location) (owners : DeclId → Option Nat)
      (groups : GroupId → Option Nat) :
      (state.graph.missingProduction name location).filterMap (Decl.account? owners groups) =
        [] := by
    rw [missingProduction]
    split <;> rfl
  have owner := tallied.owner
  have group : groupPlaceSince base.groups.size state.graph.groups.size = some tally.groups := by
    simp [groupPlaceSince, tallied.groups]
  cases entry with
  | fileDescription text => exact (List.append_nil _).symm
  | enumGroup description line names =>
      simp only [Tally.add, entryAdditions, List.filterMap_map]
      rw [← List.filterMap_eq_map]
      congr 2
      funext name
      simp [Decl.account?, Decl.accountKind?, group]
  | declaration name description line declared =>
      cases declared with
      | classBlock head =>
          simp only [Tally.add, Tally.declare, Tally.openBlock, Tally.note,
            entryAdditions, additions, classAdditions]
          split
          · next noRule => simp [writtenClass, Decl.account?, Decl.accountKind?, noRule]
          · next rule isRule =>
              simp [writtenClass, Decl.account?, Decl.accountKind?, isRule, noProduction]
      | property interfaceOnly =>
          simp only [Tally.add, Tally.declare, entryAdditions, additions]
          rcases isOwner : state.owner with _ | last <;>
            rcases isTallied : tally.owner with _ | place <;>
              simp_all [Tally.note, Decl.account?, Decl.accountKind?]
      | method parameters interfaceOnly =>
          simp only [Tally.add, Tally.declare, entryAdditions, additions]
          rcases isOwner : state.owner with _ | last <;>
            rcases isTallied : tally.owner with _ | place <;>
              simp_all [Tally.note, Decl.account?, Decl.accountKind?]
      | _ => rfl

/-- Recording a declaration leaves groups and the descriptions of files alone. Files only list what
is declared, and groups are added by enumerations. -/
theorem kept_declare (state : Recording) (index : Nat) (name description : String)
    (location : Location) (declared : Declared) :
    (state.declare index name description location declared).graph.groups = state.graph.groups ∧
      (state.declare index name description location declared).graph.files.map (·.description) =
        state.graph.files.map (·.description) := by
  have required (graph : Graph) (name : String) :
      (graph.requireProduction name location).2.groups = graph.groups ∧
        (graph.requireProduction name location).2.files = graph.files := by
    rw [requireProduction]
    split <;> exact ⟨rfl, rfl⟩
  cases declared with
  | classBlock head =>
      simp only [declare, recordClass]
      split
      · refine ⟨rfl, ?_⟩
        apply map_files_modifyFile
        exact fun _ => rfl
      · rcases required (state.graph.takeName name).2 (productionName name) with ⟨groups, files⟩
        refine ⟨groups, ?_⟩
        refine Eq.trans ?_ (congrArg (List.map (·.description)) files)
        apply map_files_modifyFile
        exact fun _ => rfl
  | property interfaceOnly =>
      simp only [declare]
      split <;> exact ⟨rfl, rfl⟩
  | method parameters interfaceOnly =>
      simp only [declare]
      split <;> exact ⟨rfl, rfl⟩
  | modifyBlock => exact ⟨rfl, rfl⟩
  | message kind text => exact ⟨rfl, rfl⟩
  | _ =>
      refine ⟨rfl, ?_⟩
      apply map_files_modifyFile
      exact fun _ => rfl

/-- A graph and its tally come by the same number of groups, so the place of a group is the
difference of its number to that of the first. -/
theorem groups_add (state : Recording) (index : Nat) (shortName : String) (tally : Tally)
    (entry : Entry) :
    (state.add index shortName entry).graph.groups.size + tally.groups =
      state.graph.groups.size + (tally.add shortName entry).groups := by
  cases entry with
  | fileDescription text => rfl
  | enumGroup description line names =>
      simp only [add, recordEnum, modifyFile, Array.size_push, Tally.add]
      omega
  | declaration name description line declared =>
      have same : (tally.add shortName (.declaration name description line declared)).groups =
          tally.groups := by
        simp only [Tally.add]
        cases declared <;> simp only [Tally.declare, Tally.openBlock, Tally.note] <;> split <;> rfl
      rw [same]
      exact congrArg (Array.size · + tally.groups) (kept_declare ..).1

theorem tally_of_block {entry : Entry} (opens : entry.opensBlock = true) (shortName : String)
    (tally : Tally) :
    (tally.add shortName entry).owner = some tally.accounts.length ∧
      (tally.add shortName entry).accounts.length = tally.accounts.length + 1 := by
  cases entry with
  | declaration name description line declared =>
      cases declared <;>
        simp_all [Entry.opensBlock, Tally.add, Tally.declare, Tally.openBlock, Tally.note]
  | _ => contradiction

/-- No other entry changes which block takes the members that follow, though it may have members of
its own noted. -/
theorem owner_tally_of_other {entry : Entry} (other : entry.opensBlock = false)
    (shortName : String) (tally : Tally) : (tally.add shortName entry).owner = tally.owner := by
  cases entry with
  | declaration name description line declared =>
      cases declared with
      | property interfaceOnly =>
          simp only [Tally.add, Tally.declare]
          split <;> rfl
      | method parameters interfaceOnly =>
          simp only [Tally.add, Tally.declare]
          split <;> rfl
      | _ => first | rfl | contradiction
  | _ => rfl

/-- A graph and its tally stay in step from entry to entry. What the entry adds is known for each
kind of it, and so is what it is accounted for as. The last block is the one which the tally has as
owner, and productions that come in between do not count as places. -/
theorem Tallied.add (tallied : Tallied base state tally)
    (since : OwnedSince base.decls.size state) (last : state.OwnerIsLast) (index : Nat)
    (shortName : String) (entry : Entry) :
    Tallied base (state.add index shortName entry) (tally.add shortName entry) := by
  have adds := adds_add state index shortName entry
  have accounts : Graph.accounts base (state.add index shortName entry).graph =
      (tally.add shortName entry).accounts := by
    rw [accounts_of_adds adds since.large, tallied.accounts, tallied.accounts_add]
    intro decl isDecl owner owned
    rcases List.mem_append.mp isDecl with isOld | isNew
    · rcases List.mem_iff_getElem.mp isOld with ⟨position, inside, rfl⟩
      simp only [Graph.since, List.getElem_drop, Array.getElem_toList] at owned
      apply (since.owners (base.decls.size + position) owner (Nat.le_add_right _ _) _).2
      simp only [Graph.since, List.length_drop, Array.length_toList] at inside
      simpa [decl, Nat.add_lt_of_lt_sub' inside] using owned
    · exact (since.last owner (owner_of_mem_entryAdditions isNew owned)).2
  refine ⟨accounts, ?_, ?_⟩
  · have isLast := owner_add state index shortName entry
    cases opens : entry.opensBlock with
    | true =>
        rw [if_pos opens] at isLast
        rcases isLast with ⟨owner, isOwner, isNew, newest⟩
        have takes := ((goesOn_add last index shortName entry).2 owner isOwner).1
        rcases placeSince_newest (Nat.le_trans since.large isNew) newest takes
          with ⟨place, isPlace, count⟩
        rcases tally_of_block opens shortName tally with ⟨tallyOwner, tallyCount⟩
        rw [accounts, tallyCount] at count
        rw [isOwner, tallyOwner, Option.map_some, Option.map_some, isPlace, Nat.succ.inj count]
    | false =>
        rw [if_neg (by simp [opens])] at isLast
        rw [isLast, owner_tally_of_other opens, ← tallied.owner]
        apply Option.map_congr
        intro owner isOwner
        exact placeSince_of_adds adds since.large (Nat.le_of_lt (since.last owner isOwner).2)
  · have counts := groups_add state index shortName tally entry
    have groups := tallied.groups
    omega

/-- What the entries of a file add comes to what the tally says of them. Each entry keeps both in
step, and the last block has been added since the reading began. -/
theorem tallied_foldl (base : Graph) (index : Nat) (shortName : String) (entries : List Entry) :
    Tallied base (entries.foldl (add index shortName) ⟨base, none⟩)
      (entries.foldl (Tally.add shortName) .start) := by
  suffices kept : ∀ (state : Recording) (tally : Tally), Tallied base state tally →
      OwnedSince base.decls.size state → state.OwnerIsLast →
        Tallied base (entries.foldl (add index shortName) state)
          (entries.foldl (Tally.add shortName) tally) from
    kept _ _ (tallied_start base) (ownedSince_start base) fun _ isOwner => nomatch isOwner
  induction entries with
  | nil => exact fun _ _ tallied _ _ => tallied
  | cons entry entries ih =>
      intro state tally tallied since last
      exact ih _ _ (tallied.add since last index shortName entry) (since.add ..)
        (goesOn_add last ..).2

/-- An entry that describes the file takes the place of its description. All others leave it. -/
theorem descriptions_add (state : Recording) (index : Nat) (shortName : String) (entry : Entry) :
    ((state.add index shortName entry).graph.files.map (·.description))[index]? =
      (state.graph.files.map (·.description))[index]?.map (Entry.describe · entry) := by
  have still {files : List FileRecord}
      (same : files.map (·.description) = state.graph.files.map (·.description)) :
      (files.map (·.description))[index]? =
        (state.graph.files.map (·.description))[index]?.map id := by
    rw [same, Option.map_id]
    rfl
  cases entry with
  | fileDescription text =>
      simp only [add, modifyFile, List.getElem?_map, List.getElem?_modify_eq]
      cases state.graph.files[index]? <;> rfl
  | declaration name description line declared => exact still (kept_declare ..).2
  | enumGroup description line names =>
      apply still
      apply map_files_modifyFile
      exact fun _ => rfl

/-- After all entries, a file has the description that the last describing one among them gives
it. -/
theorem descriptions_foldl (entries : List Entry) (state : Recording) (index : Nat)
    (shortName : String) :
    ((entries.foldl (add index shortName) state).graph.files.map (·.description))[index]? =
      (state.graph.files.map (·.description))[index]?.map (entries.foldl Entry.describe) := by
  induction entries generalizing state with
  | nil => exact (congrFun Option.map_id _).symm
  | cons entry entries ih =>
      rw [List.foldl_cons, ih, descriptions_add, Option.map_map]
      rfl

end Recording

/-! ### Two readings of one file -/

/-- Whether two readings of a file have added the same to the graphs before them. -/
structure SameAccount (left right : Graph) (leftIndex rightIndex : Nat)
    (leftReading rightReading : Reading) : Prop where
  ending : leftReading.ending = rightReading.ending
  accounts : Graph.accounts left leftReading.graph = Graph.accounts right rightReading.graph
  /-- The file is described alike, unless that has been different before. -/
  description : (left.file leftIndex).description = (right.file rightIndex).description →
    (leftReading.graph.file leftIndex).description =
      (rightReading.graph.file rightIndex).description

variable {left right : Graph} {source : SourceFile} {index leftIndex rightIndex : Nat}
  {languageSeen : Bool} {content : List UInt8} {mirror : Option (List UInt8)}

theorem accounts_record (base : Graph) (index : Nat) (entries : List Entry) :
    accounts base (base.record index entries) =
      (entries.foldl (Tally.add (base.file index).source.shortName) .start).accounts :=
  (Recording.tallied_foldl base index _ entries).accounts

theorem description_record (isFile : (graph.files[index]?).map (·.source) = some source)
    (entries : List Entry) :
    ((graph.record index entries).file index).description =
      entries.foldl Entry.describe (graph.file index).description := by
  have described := Recording.descriptions_foldl entries ⟨graph, none⟩ index
    (graph.file index).source.shortName
  rcases Option.map_eq_some_iff.mp isFile with ⟨before, isBefore, _⟩
  simp only [Graph.file, List.getElem?_map, isBefore, Option.map_some,
    Option.getD_some] at described
  rcases Option.map_eq_some_iff.mp described with ⟨after, isAfter, description⟩
  simpa only [Graph.file, record, isBefore, isAfter, Option.getD_some] using description

/-- What a file declares, and how it is described, depends on nothing that has been read before, if
the file does not declare the language directory. The entries are then the same in both readings,
and what they add is accounted for by a tally that no graph occurs in. -/
theorem sameAccount_readPlain (isLeft : (left.files[leftIndex]?).map (·.source) = some source)
    (isRight : (right.files[rightIndex]?).map (·.source) = some source)
    (uncalled : (FileOutcome.ofFile source.isHeader false
      (.ofContent source.shortName content mirror none)).languageSeen = false)
    (leftSeen rightSeen : Bool) :
    SameAccount left right leftIndex rightIndex
      (left.readPlain leftSeen leftIndex source.shortName content mirror)
      (right.readPlain rightSeen rightIndex source.shortName content mirror) := by
  let outcome := FileOutcome.ofFile source.isHeader false
    (.ofContent source.shortName content mirror none)
  have fileSource {graph : Graph} {index : Nat}
      (isFile : (graph.files[index]?).map (·.source) = some source) :
      (graph.file index).source = source := by
    rcases Option.map_eq_some_iff.mp isFile with ⟨file, found, rfl⟩
    simp [Graph.file, found]
  have reading {graph : Graph} {index : Nat}
      (isFile : (graph.files[index]?).map (·.source) = some source) (languageSeen : Bool) :
      graph.readPlain languageSeen index source.shortName content mirror =
        ⟨graph.record index outcome.entries, languageSeen, outcome.ending⟩ := by
    rw [readPlain, classifyFile, fileSource isFile,
      FileOutcome.ofFile_of_uncalled languageSeen uncalled]
  rw [reading isLeft, reading isRight]
  constructor
  · rfl
  · rw [accounts_record, accounts_record, fileSource isLeft, fileSource isRight]
  · intro same
    dsimp only
    rw [description_record isLeft, description_record isRight, same]

/-- A file with a class that has one property. -/
def lampFile : InputFile :=
  .ofContent "lamp.t" "class Lamp: Thing\n    lit = nil\n".toUTF8.toList .absent

/-- A graph in which a file with a grammar rule has been read before. -/
def afterGrammar : Graph :=
  (ofFiles [(SourceFile.ofPath "grammar.t"), lampFile.source]).record 0
    [.declaration "verb(light)" "" 1 (.classBlock { bases := ["Action"], rule := some "light" }),
      .declaration "name" "" 2 (.property false)]

/-- In one graph the file is read first, and in the other one behind a grammar rule, so that the
declarations of the file have other numbers there. -/
theorem sameAccount_lampFile :
    ((ofFiles [lampFile.source]).files[0]?).map (·.source) = some lampFile.source ∧
    (afterGrammar.files[1]?).map (·.source) = some lampFile.source ∧
    (FileOutcome.ofFile lampFile.source.isHeader false
      (.ofContent lampFile.source.shortName lampFile.content none none)).languageSeen = false ∧
    SameAccount (ofFiles [lampFile.source]) afterGrammar 0 1
      ((ofFiles [lampFile.source]).readPlain false 0
        lampFile.source.shortName lampFile.content none)
      (afterGrammar.readPlain true 1 lampFile.source.shortName lampFile.content none) := by
  have uncalled : (FileOutcome.ofFile lampFile.source.isHeader false
      (.ofContent lampFile.source.shortName lampFile.content none none)).languageSeen = false := by
    apply FileOutcome.languageSeen_ofLines_of_others
    apply Reader.foresees_ofContent
    decide +kernel
  have isRight : (afterGrammar.files[1]?).map (·.source) = some lampFile.source := by
    rfl
  exact ⟨rfl, isRight, uncalled, sameAccount_readPlain rfl isRight uncalled false true⟩

end Graph

end TadsReference
