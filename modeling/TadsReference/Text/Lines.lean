/-!
# Lines of a text

A text is divided behind each line feed. The two readings of a line's end differ in the carriage
returns that they drop.
-/

namespace TadsReference.Text

/-- The pieces of a sequence, each with the terminator that ends it. The last piece may lack its
terminator; no piece is empty. -/
def splitAfter {α : Type} [BEq α] (terminator : α) (sequence : List α) : List (List α) :=
  sequence.foldr
    (fun item pieces =>
      if item == terminator then [item] :: pieces
      else
        match pieces with
        | [] => [[item]]
        | piece :: others => (item :: piece) :: others)
    []

/-- The first piece of a sequence, with its terminator, and what follows it. -/
def cutAfter {α : Type} [BEq α] (terminator : α) : List α → List α × List α
  | [] => ([], [])
  | item :: rest =>
      if item == terminator then ([item], rest)
      else
        let (piece, others) := cutAfter terminator rest
        (item :: piece, others)

/-- The sequence without its last item, if that is the given one. -/
def dropLastIf {α : Type} [BEq α] (item : α) (sequence : List α) : List α :=
  if sequence.getLast? == some item then sequence.dropLast else sequence

/-- The lines of a text. A line ends at a line feed or at a carriage return with a line feed. -/
def lines (text : List Char) : List (List Char) :=
  (splitAfter '\n' text).map fun line =>
    if line.getLast? == some '\n' then dropLastIf '\r' line.dropLast else line

/-- Nothing is lost when a sequence is divided. -/
theorem flatten_splitAfter {α : Type} [BEq α] (terminator : α) (sequence : List α) :
    (splitAfter terminator sequence).flatten = sequence := by
  induction sequence with
  | nil => rfl
  | cons item rest ih =>
      simp only [splitAfter, List.foldr_cons] at ih ⊢
      split
      · simp [ih]
      · split
        · next empty => simp_all
        · next piece others shape => simp_all

@[simp] theorem splitAfter_nil {α : Type} [BEq α] (terminator : α) :
    splitAfter terminator [] = [] :=
  rfl

/-- Cutting off one piece after the other divides a sequence. -/
theorem splitAfter_cons {α : Type} [BEq α] (terminator item : α) (rest : List α) :
    splitAfter terminator (item :: rest) =
      (cutAfter terminator (item :: rest)).1 ::
        splitAfter terminator (cutAfter terminator (item :: rest)).2 := by
  induction rest generalizing item with
  | nil => by_cases ends : (item == terminator) = true <;> simp [splitAfter, cutAfter, ends]
  | cons next others ih =>
      by_cases ends : (item == terminator) = true
      · simp [splitAfter, cutAfter, ends]
      · rw [cutAfter, if_neg ends]
        simp only [splitAfter, List.foldr_cons (a := item), if_neg ends] at ih ⊢
        rw [ih next]

/-- No part of a sequence that is divided at a separator contains it. -/
theorem not_mem_of_mem_splitOn {α : Type} [DecidableEq α] {separator : α} {sequence part : List α}
    (isPart : part ∈ sequence.splitOn separator) : separator ∉ part := by
  induction sequence generalizing part with
  | nil =>
      obtain rfl : part = [] := by simpa using isPart
      exact List.not_mem_nil
  | cons item rest ih =>
      rw [List.splitOn_cons_eq_if_modifyHead] at isPart
      split at isPart
      · rcases List.mem_cons.mp isPart with rfl | isLater
        · exact List.not_mem_nil
        · exact ih isLater
      · next other =>
          cases parts : rest.splitOn separator with
          | nil => exact absurd parts (List.splitOn_ne_nil _ _)
          | cons first others =>
              rw [parts] at ih isPart
              rcases List.mem_cons.mp isPart with rfl | isLater
              · have differs : separator ≠ item := fun same => other (by simp [same])
                exact List.not_mem_cons_of_ne_of_not_mem differs (ih List.mem_cons_self)
              · exact ih (List.mem_cons_of_mem _ isLater)

end TadsReference.Text
