import TadsReference.Proofs.Graph.Sessions

/-!
# The lists of a graph

Whatever the order of reading and linking, the list of each kind holds the declarations of that
kind, each of them once: `complete_run`.
-/

namespace TadsReference.Graph

open Relation

variable {graph before after : Graph}

/-- The list of each kind holds the declarations of that kind, in some order. -/
def Complete (graph : Graph) : Prop :=
  ∀ listing, (graph.listed listing).Perm (graph.labelled listing.label)

namespace Complete

theorem mem_iff (complete : graph.Complete) (listing : Listing) (id : DeclId) :
    id ∈ graph.listed listing ↔
      id < graph.decls.size ∧ (graph.decl id).kindLabel = listing.label := by
  rw [(complete listing).mem_iff, labelled, mem_idsWhere, beq_iff_eq]

theorem nodup (complete : graph.Complete) (listing : Listing) : (graph.listed listing).Nodup := by
  rw [(complete listing).nodup_iff]
  exact (pairwise_lt_idsWhere graph _).imp fun lt => Nat.ne_of_lt lt

/-- A step that declares nothing and keeps what the kinds are keeps the lists complete, if it only
changes their order. -/
theorem of_keeps (complete : before.Complete) (head : Keeps Decl.head before after)
    (size : after.decls.size = before.decls.size)
    (lists : ∀ listing, (after.listed listing).Perm (before.listed listing)) : after.Complete := by
  intro listing
  rw [head.labelled size]
  exact (lists listing).trans (complete listing)

/-- Each step of recording puts the declaration that it adds into the list of its kind, and into no
other list. -/
theorem of_step (complete : before.Complete) (step : RecordStep before after) :
    after.Complete := by
  cases step with
  | aside decls lists =>
      apply complete.of_keeps _ (by rw [decls])
      · intro listing
        rw [lists]
      · intro id
        rw [decl_of_decls_eq decls]
  | declare decl bare decls lists =>
      intro listing
      rw [lists, labelled, idsWhere_of_push decls]
      by_cases isLabel : listing.label = decl.kindLabel
      · simpa [isLabel, labelled] using (complete listing).append_right [before.nextId]
      · simpa [isLabel, Ne.symm isLabel, labelled] using complete listing
  | member owner kind decl unlinked owned kindOf takes last =>
      intro listing
      have label := Unlinked.label_ne_of_owner? owned listing
      have lists : (before.addMember owner kind decl).listed listing = before.listed listing := by
        cases listing <;> rfl
      have labelled : (before.addMember owner kind decl).labelled listing.label =
          before.labelled listing.label := by
        rw [Graph.labelled, Unlinked.idsWhere_addMember]
        · simp [label, Graph.labelled]
        · intro holder change
          exact congrArg (·.2.2.2 == listing.label) (Decl.head_mapBody holder change)
      rw [lists, labelled]
      exact complete listing
  | join production rule isClass =>
      apply complete.of_keeps (Keeps.modifyDecl (Decl.head_withRule rule) before production)
      · simp [modifyDecl]
      · intro listing
        cases listing <;> exact .refl _

theorem of_steps (complete : before.Complete) (steps : ReflTransGen RecordStep before after) :
    after.Complete := by
  induction steps with
  | refl => exact complete
  | tail _ step ih => exact ih.of_step step

theorem read (complete : graph.Complete) (reading : FileReading) :
    (graph.read reading).Complete :=
  complete.of_steps (steps_read graph reading)

theorem sortCollections (complete : graph.Complete) : graph.sortCollections.Complete := by
  refine complete.of_keeps (fun _ => rfl) rfl ?_
  intro listing
  cases listing with
  | modifications => exact .refl _
  | _ => exact graph.perm_sorted _

theorem link (complete : graph.Complete) : graph.link.Complete := by
  apply complete.of_keeps (keeps_head_link graph) (size_link graph)
  intro listing
  rw [listed_link]
  cases listing with
  | modifications => exact .refl _
  | _ => exact graph.perm_sorted _

end Complete

theorem complete_ofFiles (files : List SourceFile) : (ofFiles files).Complete := by
  intro listing
  rw [(unlinked_ofFiles files).listed]

/-- Both kinds of steps of a session keep the lists complete, and a graph in which nothing has been
read has nothing to list. -/
theorem complete_run (files : List SourceFile) (steps : List SessionStep) :
    ((ofFiles files).run steps).Complete := by
  apply List.foldlRecOn steps perform (complete_ofFiles files)
  intro graph complete step _
  cases step with
  | read reading => exact complete.read reading
  | link => exact complete.link

end TadsReference.Graph
