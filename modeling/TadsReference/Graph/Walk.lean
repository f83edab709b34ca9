/-!
# Walks through a graph of numbers

A walk goes depth first, each list of neighbours from left to right, and visits no number twice.
Numbers at or above the limit do not belong to the graph.
-/

namespace TadsReference.Walk

/-- The numbers below a limit that have not been visited. -/
def unvisited (limit : Nat) (visited : List Nat) : List Nat :=
  (List.range limit).filter fun number => !visited.contains number

theorem length_unvisited_cons_lt {limit number : Nat} {visited : List Nat}
    (inside : number < limit) (fresh : visited.contains number = false) :
    (unvisited limit (number :: visited)).length < (unvisited limit visited).length := by
  have shape : unvisited limit (number :: visited) =
      (unvisited limit visited).filter (· != number) := by
    simp only [unvisited, List.filter_filter]
    congr 1
    funext other
    by_cases same : other = number <;> simp [same]
  have member : number ∈ unvisited limit visited := by
    simp only [unvisited, List.mem_filter, List.mem_range]
    exact ⟨inside, by simpa using fresh⟩
  rw [shape]
  apply Nat.lt_of_le_of_ne (List.length_filter_le _ _)
  intro same
  have all := List.length_filter_eq_length_iff.mp same number member
  simp at all

/-- The numbers reached from a stack of numbers, in the order of the visits. -/
def preorder (next : Nat → List Nat) (limit : Nat) (visited : List Nat) : List Nat → List Nat
  | [] => []
  | number :: stack =>
      if _fresh : number < limit ∧ visited.contains number = false then
        number :: preorder next limit (number :: visited) (next number ++ stack)
      else preorder next limit visited stack
termination_by stack => ((unvisited limit visited).length, stack.length)
decreasing_by
  · exact Prod.Lex.left _ _ (length_unvisited_cons_lt _fresh.1 _fresh.2)
  · exact Prod.Lex.right _ (by simp)

/-- A line of an indented outline: how deep it stands, and a number or a label. -/
structure OutlineLine (Label : Type) where
  depth : Nat
  item : Nat ⊕ Label
deriving Repr, DecidableEq

variable {Label : Type}

/-- The lines below a number. -/
def OutlineLine.below (depth : Nat) (items : List (Nat ⊕ Label)) : List (OutlineLine Label) :=
  items.map fun item => ⟨depth + 1, item⟩

/-- The outline of a stack of lines. Under a number stand the lines of its neighbours, but only
where it occurs for the first time. -/
def outline (next : Nat → List (Nat ⊕ Label)) (limit : Nat) (visited : List Nat) :
    List (OutlineLine Label) → List (OutlineLine Label)
  | [] => []
  | line :: stack =>
      match line.item with
      | .inr _ => line :: outline next limit visited stack
      | .inl number =>
          if _fresh : number < limit ∧ visited.contains number = false then
            line :: outline next limit (number :: visited)
              (OutlineLine.below line.depth (next number) ++ stack)
          else line :: outline next limit visited stack
termination_by stack => ((unvisited limit visited).length, stack.length)
decreasing_by
  · exact Prod.Lex.right _ (by simp)
  · exact Prod.Lex.left _ _ (length_unvisited_cons_lt _fresh.1 _fresh.2)
  · exact Prod.Lex.right _ (by simp)

end TadsReference.Walk
