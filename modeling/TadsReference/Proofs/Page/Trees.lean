import Mathlib.Algebra.Ring.Nat
import TadsReference.Page.Markdown
import TadsReference.Proofs.Graph.DepthFirst
import TadsReference.Proofs.Graph.InheritedViews
import TadsReference.Proofs.Graph.References

/-!
# Trees on pages

A page shows the bases of a declaration as an outline, and the subclasses of a class as another one.
A declaration that occurs again is not unfolded again, which keeps an outline finite on any graph.
So each reference to a base or a subclass is shown in one place only, and none is left out:
`showsEdges_of_session`.
-/

namespace TadsReference

namespace Walk

open Relation

variable {Label : Type} {next : Nat → List (Nat ⊕ Label)} {limit start target : Nat}
  {visited : List Nat} {trail items : List (Nat ⊕ Label)} {line : OutlineLine Label}
  {stack : List (OutlineLine Label)}

/-! ### What an outline shows -/

/-- The item that a line of a depth stands under. `trail` holds the items of the lines above it, the
outermost first. -/
def holder? (trail : List (Nat ⊕ Label)) : (depth : Nat) → Option (Nat ⊕ Label)
  | 0 => none
  | depth + 1 => trail[depth]?

namespace OutlineLine

/-- The item of a line behind the one that it stands under, if it stands under one. -/
def edge (trail : List (Nat ⊕ Label)) (line : OutlineLine Label) :
    List ((Nat ⊕ Label) × (Nat ⊕ Label)) :=
  ((holder? trail line.depth).map (·, line.item)).toList

/-- The items above a line and its own, which is the last one. -/
def trailTo (trail : List (Nat ⊕ Label)) (line : OutlineLine Label) : List (Nat ⊕ Label) :=
  trail.take line.depth ++ [line.item]

end OutlineLine

/-- The edges that the depths of lines express: each line stands under the last one before it that
is less deep by one. -/
def edges (trail : List (Nat ⊕ Label)) :
    List (OutlineLine Label) → List ((Nat ⊕ Label) × (Nat ⊕ Label))
  | [] => []
  | line :: lines => line.edge trail ++ edges (line.trailTo trail) lines

/-- The edges from a number to its neighbours. -/
def edgesFrom (next : Nat → List (Nat ⊕ Label)) (number : Nat) :
    List ((Nat ⊕ Label) × (Nat ⊕ Label)) :=
  (next number).map (.inl number, ·)

/-- The numbers among items, without the labels. -/
def numbers (items : List (Nat ⊕ Label)) : List Nat :=
  items.filterMap Sum.getLeft?

/-- The numbers that the outline of a stack unfolds. -/
def unfolded (next : Nat → List (Nat ⊕ Label)) (limit : Nat) (visited : List Nat)
    (stack : List (OutlineLine Label)) : List Nat :=
  preorder (fun number => numbers (next number)) limit visited (numbers (stack.map (·.item)))

/-! ### The lines on a stack -/

/-- The lines of a stack continue an outline whose last line has a trail: none is deeper than the
one before it, and all stand under items of the trail. -/
structure Continues (trail : List (Nat ⊕ Label)) (stack : List (OutlineLine Label)) : Prop where
  descending : stack.Pairwise fun upper lower => lower.depth ≤ upper.depth
  inside : ∀ line ∈ stack, line.depth ≤ trail.length

theorem length_trailTo (inside : line.depth ≤ trail.length) :
    (line.trailTo trail).length = line.depth + 1 := by
  simp [OutlineLine.trailTo, inside]

/-- A line does not change what the lines stand under that are no deeper. -/
theorem edge_trailTo {other : OutlineLine Label} (inside : line.depth ≤ trail.length)
    (above : other.depth ≤ line.depth) : other.edge (line.trailTo trail) = other.edge trail := by
  obtain ⟨depth, item⟩ := other
  cases depth with
  | zero => rfl
  | succ depth =>
      have before : depth < line.depth := above
      have front : depth < (trail.take line.depth).length := by
        rw [List.length_take]
        omega
      simp [OutlineLine.edge, holder?, OutlineLine.trailTo, List.getElem?_append_left front,
        List.getElem?_take_of_lt before]

/-- Behind a line that has been written, the other lines of a stack stand under what they stood
under before. -/
theorem Continues.tail (continues : Continues trail (line :: stack)) :
    Continues (line.trailTo trail) stack ∧
      stack.flatMap (·.edge (line.trailTo trail)) = stack.flatMap (·.edge trail) := by
  obtain ⟨above, descending⟩ := List.pairwise_cons.mp continues.descending
  have inside := continues.inside line List.mem_cons_self
  refine ⟨⟨descending, ?_⟩, ?_⟩
  · intro other onStack
    rw [length_trailTo inside]
    exact Nat.le_succ_of_le (above other onStack)
  · exact List.flatMap_congr fun other onStack => edge_trailTo inside (above other onStack)

/-- The neighbours of a number go under its line, in front of the other lines. They are one level
below that line, so depths still do not grow along the stack, and all of them lie on the new
trail. -/
theorem Continues.unfold (continues : Continues trail (line :: stack)) :
    Continues (line.trailTo trail) (OutlineLine.below line.depth items ++ stack) := by
  have above := (List.pairwise_cons.mp continues.descending).1
  have inside := continues.inside line List.mem_cons_self
  have rest := continues.tail.1
  constructor
  · refine List.pairwise_append.mpr ⟨?_, rest.descending, ?_⟩
    · exact List.pairwise_map.mpr (List.pairwise_of_forall fun _ _ => Nat.le_refl _)
    · rintro upper isBelow lower onStack
      obtain ⟨item, _, rfl⟩ := List.mem_map.mp isBelow
      exact Nat.le_succ_of_le (above lower onStack)
  · intro other member
    rcases List.mem_append.mp member with isBelow | onStack
    · obtain ⟨item, _, rfl⟩ := List.mem_map.mp isBelow
      exact Nat.le_of_eq (length_trailTo inside).symm
    · exact rest.inside other onStack

theorem flatMap_edge_below (inside : line.depth ≤ trail.length) :
    (OutlineLine.below line.depth items).flatMap (·.edge (line.trailTo trail)) =
      items.map (line.item, ·) := by
  have holder : (line.trailTo trail)[line.depth]? = some line.item := by
    simp [OutlineLine.trailTo, inside]
  rw [OutlineLine.below, List.flatMap_map, List.map_eq_flatMap]
  simp [OutlineLine.edge, holder?, holder]

/-! ### Every edge once -/

@[simp]
theorem numbers_append (left right : List (Nat ⊕ Label)) :
    numbers (left ++ right) = numbers left ++ numbers right :=
  List.filterMap_append

theorem map_item_below (depth : Nat) (items : List (Nat ⊕ Label)) :
    (OutlineLine.below depth items).map (·.item) = items := by
  simp [OutlineLine.below, Function.comp_def]

theorem unfolded_label {label : Label} (isLabel : line.item = .inr label) :
    unfolded next limit visited (line :: stack) = unfolded next limit visited stack := by
  have first : numbers ((line :: stack).map (·.item)) = numbers (stack.map (·.item)) := by
    rw [List.map_cons, isLabel]
    rfl
  rw [unfolded, first, unfolded]

/-- A number that has not been visited is unfolded, in front of what its neighbours and the other
lines unfold. -/
theorem unfolded_fresh {number : Nat} (isNumber : line.item = .inl number)
    (fresh : number < limit ∧ visited.contains number = false) :
    unfolded next limit visited (line :: stack) =
      number :: unfolded next limit (number :: visited)
        (OutlineLine.below line.depth (next number) ++ stack) := by
  have first : numbers ((line :: stack).map (·.item)) =
      number :: numbers (stack.map (·.item)) := by
    rw [List.map_cons, isNumber]
    rfl
  rw [unfolded, first, preorder, dif_pos fresh, unfolded, List.map_append, map_item_below,
    numbers_append]

theorem unfolded_stale {number : Nat} (isNumber : line.item = .inl number)
    (stale : ¬(number < limit ∧ visited.contains number = false)) :
    unfolded next limit visited (line :: stack) = unfolded next limit visited stack := by
  have first : numbers ((line :: stack).map (·.item)) =
      number :: numbers (stack.map (·.item)) := by
    rw [List.map_cons, isNumber]
    rfl
  rw [unfolded, first, preorder, dif_neg stale, unfolded]

/-- An outline shows the edges to the lines of its stack, and those from the numbers that it
unfolds. The trail is that of the line written last, so it changes with every line, and the
induction leaves it open. -/
theorem perm_edges_outline (continues : Continues trail stack) :
    (edges trail (outline next limit visited stack)).Perm
      (stack.flatMap (·.edge trail) ++
        (unfolded next limit visited stack).flatMap (edgesFrom next)) := by
  induction visited, stack using outline.induct next limit generalizing trail with
  | case1 visited => simp [outline, edges, unfolded, numbers, preorder]
  | case2 visited line stack label isLabel ih =>
      have shown := ih continues.tail.1
      rw [continues.tail.2] at shown
      rw [outline, isLabel, unfolded_label isLabel]
      simp only [edges, List.flatMap_cons, List.append_assoc]
      exact shown.append_left _
  | case3 visited line stack number isNumber fresh ih =>
      have shown := ih continues.unfold
      have below : (OutlineLine.below line.depth (next number)).flatMap
          (·.edge (line.trailTo trail)) = (next number).map (line.item, ·) :=
        flatMap_edge_below (continues.inside line List.mem_cons_self)
      rw [List.flatMap_append, below, continues.tail.2, isNumber] at shown
      rw [outline, isNumber, unfolded_fresh isNumber fresh]
      simp only [dif_pos fresh, edges, List.flatMap_cons, List.append_assoc]
      refine List.Perm.append_left _ (shown.trans ?_)
      simp only [edgesFrom, List.append_assoc]
      exact List.perm_append_comm_assoc _ _ _
  | case4 visited line stack number isNumber stale ih =>
      have shown := ih continues.tail.1
      rw [continues.tail.2] at shown
      rw [outline, isNumber, unfolded_stale isNumber stale]
      simp only [dif_neg stale, edges, List.flatMap_cons, List.append_assoc]
      exact shown.append_left _

/-- An outline has one line for each line of its stack and for each edge from the numbers that it
unfolds. -/
theorem length_outline :
    (outline next limit visited stack).length =
      stack.length + ((unfolded next limit visited stack).map fun number =>
        (next number).length).sum := by
  induction visited, stack using outline.induct next limit with
  | case1 visited => simp [outline, unfolded, numbers, preorder]
  | case2 visited line stack label isLabel ih =>
      rw [outline, isLabel, unfolded_label isLabel]
      simp only [List.length_cons, ih]
      omega
  | case3 visited line stack number isNumber fresh ih =>
      rw [outline, isNumber, unfolded_fresh isNumber fresh]
      have below : (OutlineLine.below line.depth (next number)).length = (next number).length := by
        simp [OutlineLine.below]
      simp only [dif_pos fresh, List.length_cons, ih, List.length_append, List.map_cons,
        List.sum_cons, below]
      omega
  | case4 visited line stack number isNumber stale ih =>
      rw [outline, isNumber, unfolded_stale isNumber stale]
      simp only [dif_neg stale, List.length_cons, ih]
      omega

/-- The outline of one number unfolds what can be reached from it. -/
theorem mem_unfolded_iff
    (bounded : ∀ source target, target ∈ numbers (next source) → target < limit)
    (inside : start < limit) :
    target ∈ unfolded next limit [] [⟨0, .inl start⟩] ↔
      ReflTransGen (fun source target => target ∈ numbers (next source)) start target := by
  have isOpen {number : Nat} (isInside : number < limit) : Open limit [] number :=
    ⟨isInside, List.not_mem_nil⟩
  rw [unfolded, mem_preorder_iff]
  constructor
  · rintro ⟨first, isFirst, _, path⟩
    obtain rfl : first = start := List.mem_singleton.mp isFirst
    exact ReflTransGen.mono (fun _ _ step => step.1) _ _ path
  · intro path
    refine ⟨start, List.mem_singleton.mpr rfl, isOpen inside, ?_⟩
    exact ReflTransGen.mono (fun source target step =>
      ⟨step, isOpen (bounded source target step)⟩) _ _ path

theorem continues_start (start : Nat) :
    Continues [] [(⟨0, .inl start⟩ : OutlineLine Label)] where
  descending := List.pairwise_singleton _ _
  inside := by simp

theorem head?_outline_start (next : Nat → List (Nat ⊕ Label)) (limit start : Nat) :
    (outline next limit [] [⟨0, .inl start⟩]).head? = some ⟨0, .inl start⟩ := by
  rw [outline]
  dsimp only
  split <;> rfl

end Walk

namespace Graph

open Relation

variable {graph : Graph} {id : DeclId}

/-- A class lists another one as a subclass. -/
def HasSubclass (graph : Graph) (base heir : DeclId) : Prop :=
  heir ∈ (graph.decl base).subclasses

/-- The tree of a declaration unfolds some declarations, the holders. It shows the neighbours of
each of them once, under a line of it, and nothing else but the declaration itself at the top. -/
structure ShowsEdges (graph : Graph) (next : DeclId → List (Nat ⊕ String)) (id : DeclId)
    (lines : List (Walk.OutlineLine String)) (holders : List DeclId) : Prop where
  tree : Markdown.tree graph next id = lines.map (Markdown.treeLine graph)
  top : lines.head? = some ⟨0, .inl id⟩
  nodup : holders.Nodup
  edges : (Walk.edges [] lines).Perm (holders.flatMap (Walk.edgesFrom next))
  length : (Markdown.tree graph next id).length =
    1 + (holders.map fun holder => (next holder).length).sum

section Holders

variable {next : DeclId → List (Nat ⊕ String)} {step : DeclId → DeclId → Prop}
  {ofKind : DeclId → Bool}

/-- A tree that unfolds nothing but its top has one line if there are no neighbours to show. -/
theorem showsEdges_of_no_neighbours (none : next id = []) :
    graph.ShowsEdges next id [⟨0, .inl id⟩] [] := by
  have alone : Walk.outline next graph.decls.size [] [⟨0, .inl id⟩] = [⟨0, .inl id⟩] := by
    rw [Walk.outline]
    simp [none, Walk.OutlineLine.below, Walk.outline]
  have tree : Markdown.tree graph next id = [⟨0, .inl id⟩].map (Markdown.treeLine graph) := by
    rw [Markdown.tree, alone]
  constructor
  · exact tree
  · rfl
  · exact List.nodup_nil
  · exact List.Perm.refl _
  · rw [tree]
    rfl

/-- A tree that starts inside the graph shows what it unfolds. -/
theorem showsEdges_unfolded (next : DeclId → List (Nat ⊕ String)) (id : DeclId) :
    graph.ShowsEdges next id (Walk.outline next graph.decls.size [] [⟨0, .inl id⟩])
      (Walk.unfolded next graph.decls.size [] [⟨0, .inl id⟩]) where
  tree := rfl
  top := Walk.head?_outline_start next graph.decls.size id
  nodup := Walk.nodup_preorder _ _ _ _
  edges := by
    have perm : (Walk.edges [] (Walk.outline next graph.decls.size [] [⟨0, .inl id⟩])).Perm _ :=
      Walk.perm_edges_outline (Walk.continues_start id)
    simpa [Walk.OutlineLine.edge, Walk.holder?] using perm
  length := by
    rw [Markdown.tree, List.length_map, Walk.length_outline]
    rfl

/-- If only declarations of some kind have neighbours and are neighbours, a tree unfolds those of
the kind that can be reached. From a declaration that is not of the kind itself no path leads
anywhere. -/
theorem exists_showsEdges
    (steps : ∀ source target, target ∈ Walk.numbers (next source) ↔ step source target)
    (only : ∀ source, ofKind source = false → next source = [])
    (kept : ∀ source target, step source target → ofKind target = true)
    (inside : ∀ source, ofKind source = true → source < graph.decls.size) (id : DeclId) :
    ∃ lines holders, graph.ShowsEdges next id lines holders ∧
      ∀ holder, holder ∈ holders ↔ ofKind holder = true ∧ ReflTransGen step id holder := by
  cases isOfKind : ofKind id with
  | true =>
      refine ⟨_, _, showsEdges_unfolded next id, fun holder => ?_⟩
      have bounded (source target : DeclId) (isNext : target ∈ Walk.numbers (next source)) :
          target < graph.decls.size :=
        inside target (kept source target ((steps source target).mp isNext))
      rw [Walk.mem_unfolded_iff bounded (inside id isOfKind)]
      simp only [steps]
      refine ⟨fun path => ⟨?_, path⟩, And.right⟩
      rcases ReflTransGen.cases_tail path with rfl | ⟨source, _, last⟩
      · exact isOfKind
      · exact kept source holder last
  | false =>
      have none := only id isOfKind
      refine ⟨_, _, showsEdges_of_no_neighbours none, fun holder => ?_⟩
      refine ⟨fun isHolder => absurd isHolder List.not_mem_nil, ?_⟩
      rintro ⟨isHolder, path⟩
      rcases ReflTransGen.cases_head path with rfl | ⟨target, first, _⟩
      · simp [isOfKind] at isHolder
      · have isNext := (steps id target).mpr first
        simp [none, Walk.numbers] at isNext

end Holders

theorem mem_numbers_parents {target : DeclId} :
    target ∈ Walk.numbers (Markdown.parents graph id) ↔ graph.HasBase id target := by
  have resolved : Walk.numbers (Markdown.parents graph id) = graph.resolvedBases id := by
    rw [Walk.numbers, Markdown.parents, List.filterMap_map]
    apply List.filterMap_congr
    intro base _
    cases base <;> rfl
  rw [resolved, mem_resolvedBases, HasBase]

theorem mem_numbers_children {target : DeclId} :
    target ∈ Walk.numbers (Markdown.children graph id) ↔ graph.HasSubclass id target := by
  simp [Walk.numbers, Markdown.children, HasSubclass, Decl.subclasses, List.filterMap_map]

/-- In whatever order files are read and the graph is linked, cycles included: the superclass tree
of a declaration shows every base of the classes and objects that can be reached from it along
bases, and the subclass tree every subclass of the classes that can be reached along subclasses,
each reference in one line. -/
theorem showsEdges_of_session (files : List SourceFile) (steps : List SessionStep) (id : DeclId) :
    let graph := (ofFiles files).run steps
    (∃ lines holders, graph.ShowsEdges (Markdown.parents graph) id lines holders ∧
      ∀ holder, holder ∈ holders ↔
        (graph.decl holder).isBlock = true ∧ ReflTransGen graph.HasBase id holder) ∧
    ∃ lines holders, graph.ShowsEdges (Markdown.children graph) id lines holders ∧
      ∀ holder, holder ∈ holders ↔
        (graph.decl holder).isClass = true ∧ ReflTransGen graph.HasSubclass id holder := by
  intro graph
  have mirrored : graph.Mirrored := (mirrored_ofFiles files).run steps
  constructor
  · apply exists_showsEdges
    · exact fun _ _ => mem_numbers_parents
    · intro source notBlock
      rw [Markdown.parents, Decl.bases_of_not_isBlock notBlock, List.map_nil]
    · exact mirrored.bases
    · exact fun _ isBlock => lt_size_of_view rfl isBlock
  · apply exists_showsEdges
    · exact fun _ _ => mem_numbers_children
    · intro source notClass
      have none : (graph.decl source).subclasses = [] := Decl.heirs_of_not_isClass notClass true
      rw [Markdown.children, ← Decl.subclasses, none, List.map_nil]
    · intro base heir isHeir
      apply ((mirrored.heirs base true heir ?_).mp isHeir).1
      by_contra notClass
      have none : (graph.decl base).subclasses = [] :=
        Decl.heirs_of_not_isClass (Bool.eq_false_of_not_eq_true notClass) true
      simp [HasSubclass, none] at isHeir
    · exact fun _ isClass => lt_size_of_view rfl isClass

end Graph

end TadsReference
