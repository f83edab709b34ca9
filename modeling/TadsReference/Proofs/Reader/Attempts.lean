import TadsReference.Reader.Basic

/-!
# What a call consumes

A call that reads either hands out a line of an earlier expansion, or consumes raw lines: the next
one alone, or the next one with the lines that were joined to it. Lines that were read only to look
ahead are not consumed.
-/

namespace TadsReference.Reader

/-- Whether lines may be joined to a raw line one after the other: up to each of them an argument
list is open, nothing forbids to join one more, and none is blank. -/
def Joins (scope : MacroScope) (raw : RawLine) (joined : List RawLine) : Prop :=
  ∀ fewer line, fewer ++ [line] <+: joined →
    scope.expandLine (joinedText raw fewer) = .ok .incomplete ∧
      mayJoin raw fewer = true ∧ Text.isBlankText line.text = false

/-- Whether the lines that follow a raw line fail to close an argument list that is open in it. -/
def StaysOpen (scope : MacroScope) (raw : RawLine) (following : List RawLine) : Prop :=
  ∃ joined behind, following = joined ++ behind ∧ Joins scope raw joined ∧
    scope.expandLine (joinedText raw joined) = .ok .incomplete ∧
      (mayJoin raw joined = true →
        ∀ line, behind.head? = some line → Text.isBlankText line.text = true)

/-- What becomes of a raw line and the lines joined to it, if `following` are the lines behind
them. -/
inductive Attempt :
    Option MacroScope → (raw : RawLine) → (joined following : List RawLine) →
      Except Failure (List Char) → Prop
  | verbatim (raw : RawLine) (following : List RawLine) :
      Attempt none raw [] following (.ok raw.text)
  | expanded {scope : MacroScope} {raw : RawLine} {joined following : List RawLine}
      {text : List Char} (joins : Joins scope raw joined)
      (complete : scope.expandLine (joinedText raw joined) = .ok (.complete text)) :
      Attempt (some scope) raw joined following (.ok text)
  | failed {scope : MacroScope} {raw : RawLine} {joined following : List RawLine}
      {cause : Failure} (joins : Joins scope raw joined)
      (failure : scope.expandLine (joinedText raw joined) = .error cause) :
      Attempt (some scope) raw joined following (.error cause)
  | alone {scope : MacroScope} {raw : RawLine} {following : List RawLine}
      (staysOpen : StaysOpen scope raw following) :
      Attempt (some scope) raw [] following (scope.expandAvailable raw.text)

section Joins

variable {scope : MacroScope} {raw line : RawLine} {joined : List RawLine}

theorem joins_nil (scope : MacroScope) (raw : RawLine) : Joins scope raw [] := by
  intro fewer line within
  simp at within

/-- One more line may be joined if the list is still open with those before it, if joining it is
allowed, and if it is not blank. -/
theorem Joins.append (joins : Joins scope raw joined)
    (incomplete : scope.expandLine (joinedText raw joined) = .ok .incomplete)
    (may : mayJoin raw joined = true) (filled : Text.isBlankText line.text = false) :
    Joins scope raw (joined ++ [line]) := by
  intro fewer last within
  rcases List.prefix_concat_iff.mp within with same | shorter
  · obtain ⟨rfl, rfl⟩ : fewer = joined ∧ last = line := by simpa using same
    exact ⟨incomplete, may, filled⟩
  · exact joins fewer last shorter

end Joins

/-- Whether a source has gone from `raw` and the `joined` lines behind it to the lines that follow
these. -/
structure Passes (raw : RawLine) (joined ahead : List RawLine) (later : LineSource) : Prop where
  ahead_eq : ahead = joined ++ later.ahead
  number_eq : later.number = (joined.getLast?.getD raw).number

/-- The lines that are joined, and only these, are consumed with the raw line. Once the raw line is
expanded alone, all lines read so far are ahead again. -/
theorem attempt_expandJoined (scope : MacroScope) (raw : RawLine) (joined : List RawLine)
    (source : LineSource) (joins : Joins scope raw joined)
    (number : source.number = (joined.getLast?.getD raw).number) :
    ∃ consumed, Passes raw consumed (joined ++ source.ahead)
        (expandJoined scope raw joined source).2 ∧
      Attempt (some scope) raw consumed (expandJoined scope raw joined source).2.ahead
        (expandJoined scope raw joined source).1 := by
  have alone (readAhead : List RawLine) (behind : LineSource)
      (stays : StaysOpen scope raw (readAhead ++ behind.ahead)) :
      ∃ consumed, Passes raw consumed (readAhead ++ behind.ahead)
          (expandAlone scope raw readAhead behind).2 ∧
        Attempt (some scope) raw consumed (expandAlone scope raw readAhead behind).2.ahead
          (expandAlone scope raw readAhead behind).1 := by
    refine ⟨[], ⟨by simp [expandAlone], by simp [expandAlone]⟩, ?_⟩
    apply Attempt.alone
    simpa [expandAlone] using stays
  fun_induction expandJoined scope raw joined source with
  | case1 joined source cause failure =>
      exact ⟨joined, ⟨rfl, number⟩, .failed joins failure⟩
  | case2 joined source text complete =>
      exact ⟨joined, ⟨rfl, number⟩, .expanded joins complete⟩
  | case3 joined source incomplete may read =>
      apply alone joined source
      refine ⟨joined, source.ahead, rfl, joins, incomplete, ?_⟩
      simp [LineSource.ahead_of_read?_none read]
  | case4 joined source incomplete may line behind read blank =>
      have first := LineSource.ahead_of_read? read
      have stays : StaysOpen scope raw (joined ++ [line] ++ behind.ahead) := by
        refine ⟨joined, line :: behind.ahead, by simp, joins, incomplete, ?_⟩
        intro _ head isHead
        obtain rfl : line = head := by simpa using isHead
        exact blank
      simpa [first] using alone (joined ++ [line]) behind stays
  | case5 joined source incomplete may line behind read filled ih =>
      have first := LineSource.ahead_of_read? read
      have more := joins.append incomplete may (by simpa using filled)
      simpa [first] using ih more (by simpa using LineSource.number_of_read? read)
  | case6 joined source incomplete mayNot =>
      apply alone joined source
      refine ⟨joined, source.ahead, rfl, joins, incomplete, ?_⟩
      intro may
      contradiction

/-- Expanding a raw line is an attempt at it with the lines that are joined, and the source has
passed just those. Without macros none is joined. -/
theorem attempt_expandRaw (macros : Option MacroScope) (raw : RawLine) (source : LineSource)
    (number : source.number = raw.number) :
    ∃ joined, Passes raw joined source.ahead (expandRaw macros raw source).2 ∧
      Attempt macros raw joined (expandRaw macros raw source).2.ahead
        (expandRaw macros raw source).1 := by
  cases macros with
  | none => exact ⟨[], ⟨rfl, number⟩, .verbatim raw _⟩
  | some scope => exact attempt_expandJoined scope raw [] source (joins_nil scope raw) number

end TadsReference.Reader
