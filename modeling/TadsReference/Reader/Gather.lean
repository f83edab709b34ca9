import TadsReference.Reader.Basic

/-!
# Constructs that span lines

A construct is read line by line. After each line it is either complete or waits for the next one,
and the end of the file cuts it short.
-/

namespace TadsReference

/-- Where a construct stands after one of its lines. -/
inductive Progress (State Value : Type) where
  | waiting (state : State)
  | complete (value : Value)
deriving Repr, DecidableEq

namespace Reader

variable {State Value : Type}

/-- Reads lines until a construct is complete. -/
def gather (step : State → List Char → Progress State Value) (progress : Progress State Value)
    (reader : Reader) : Except Failure (Value × Reader) :=
  match progress with
  | .complete value => .ok (value, reader)
  | .waiting state =>
      match _read : reader.requireLine with
      | (.error cause, _) => .error cause
      | (.ok line, behind) => gather step (step state line) behind
termination_by reader
decreasing_by exact behind_of_requireLine _read

theorem notBefore_of_gather {step : State → List Char → Progress State Value}
    {progress : Progress State Value} {reader later : Reader} {value : Value}
    (gathered : gather step progress reader = .ok (value, later)) : later.NotBefore reader := by
  fun_induction gather step progress reader with
  | case1 =>
      cases gathered
      exact NotBefore.refl _
  | case2 => contradiction
  | case3 reader state line behind read ih =>
      exact (ih gathered).trans (behind_of_requireLine read).notBefore

end Reader

end TadsReference
