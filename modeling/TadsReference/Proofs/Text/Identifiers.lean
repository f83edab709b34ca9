import TadsReference.Identifier

/-!
# Replacing identifiers

A text is a sequence of identifiers and of other characters, and no two identifiers touch. What is
put in the place of an identifier therefore stays apart from its neighbours: the identifiers of the
new text are those of the pieces put in, in order (`names_mapRuns`), and replacing them once more
amounts to replacing them in each piece (`mapRuns_mapRuns`).
-/

namespace TadsReference.Identifier

/-- A run of identifier characters. -/
structure IsRun (run : List Char) : Prop where
  nonempty : run ≠ []
  all : ∀ character ∈ run, isIdentifierCharacter character = true

theorem isRun_iff {run : List Char} :
    IsRun run ↔ run ≠ [] ∧ run.all isIdentifierCharacter = true := by
  rw [List.all_eq_true]
  exact ⟨fun isRun => ⟨isRun.nonempty, isRun.all⟩, fun isRun => ⟨isRun.1, isRun.2⟩⟩

/-- Whether a text is an identifier can be checked character by character. -/
instance (run : List Char) : Decidable (IsRun run) :=
  decidable_of_iff _ isRun_iff.symm

/-- An identifier that ends where a text begins does not go on in the text. -/
def Apart (text : List Char) : Prop :=
  ∀ character ∈ text.head?, isIdentifierCharacter character = false

/-- The identifiers of a text in order. -/
def names (text : List Char) : List (List Char) :=
  (runs text).map (·.name)

variable {character : Char} {text left right run rest : List Char}

theorem apart_nil : Apart [] := by
  intro character isHead
  contradiction

theorem apart_cons (other : isIdentifierCharacter character = false) :
    Apart (character :: rest) := by
  intro first isHead
  rwa [← Option.some.inj isHead]

theorem Apart.append (apart : Apart left) (apartRight : Apart right) : Apart (left ++ right) := by
  cases left with
  | nil => exact apartRight
  | cons character rest => exact apart

theorem apart_dropWhile (text : List Char) : Apart (text.dropWhile isIdentifierCharacter) := by
  intro character isHead
  have failing := List.head?_dropWhile_not isIdentifierCharacter text
  rw [isHead] at failing
  simpa using failing

/-- An identifier character and those that follow it are an identifier. -/
theorem isRun_takeWhile (isIdentifier : isIdentifierCharacter character = true)
    (tail : List Char) : IsRun (character :: tail.takeWhile isIdentifierCharacter) where
  nonempty := by simp
  all := List.forall_mem_cons.mpr ⟨isIdentifier, List.all_eq_true.mp List.all_takeWhile⟩

/-- Texts are made of identifiers and of other characters. This is the induction for all functions
that go through a text name by name. It is on the length, since an identifier is taken off as a
whole. -/
theorem run_induction {motive : List Char → Prop} (nil : motive [])
    (other : ∀ character rest, isIdentifierCharacter character = false → motive rest →
      motive (character :: rest))
    (identifier : ∀ run rest, IsRun run → Apart rest → motive rest → motive (run ++ rest))
    (text : List Char) : motive text := by
  induction length : text.length using Nat.strongRecOn generalizing text with
  | ind size ih =>
      subst length
      cases text with
      | nil => exact nil
      | cons character tail =>
          cases isIdentifier : isIdentifierCharacter character with
          | false => exact other character tail isIdentifier (ih _ (by simp) tail rfl)
          | true =>
              have shorter := (List.dropWhile_sublist (l := tail) isIdentifierCharacter).length_le
              have split : character :: tail =
                  (character :: tail.takeWhile isIdentifierCharacter) ++
                    tail.dropWhile isIdentifierCharacter := by
                simp
              rw [split]
              apply identifier
              · exact isRun_takeWhile isIdentifier tail
              · exact apart_dropWhile tail
              · apply ih _ _ _ rfl
                simp only [List.length_cons]
                omega

/-- A text begins with an identifier or with another character. -/
theorem run_cases {motive : List Char → Prop} (nil : motive [])
    (other : ∀ character rest, isIdentifierCharacter character = false →
      motive (character :: rest))
    (identifier : ∀ run rest, IsRun run → Apart rest → motive (run ++ rest))
    (text : List Char) : motive text :=
  run_induction nil (fun character rest isOther _ => other character rest isOther)
    (fun run rest isRun apart _ => identifier run rest isRun apart) text

theorem takeWhile_append_of_apart
    (all : ∀ character ∈ run, isIdentifierCharacter character = true) (apart : Apart rest) :
    (run ++ rest).takeWhile isIdentifierCharacter = run ∧
      (run ++ rest).dropWhile isIdentifierCharacter = rest := by
  rw [List.takeWhile_append_of_pos all, List.dropWhile_append_of_pos all]
  cases rest with
  | nil => simp
  | cons character rest =>
      have other := apart character rfl
      simp [other]

/-! ### Equations -/

section Equations

variable {replace : List Char → List Char}

theorem mapRuns_nil : mapRuns replace [] = [] := by
  rw [mapRuns]

theorem mapRuns_other (other : isIdentifierCharacter character = false) :
    mapRuns replace (character :: rest) = character :: mapRuns replace rest := by
  rw [mapRuns, other]
  rfl

theorem mapRuns_run (isRun : IsRun run) (apart : Apart rest) :
    mapRuns replace (run ++ rest) = replace run ++ mapRuns replace rest := by
  rcases run with _ | ⟨character, tail⟩
  · exact absurd rfl isRun.nonempty
  · have isIdentifier := isRun.all character List.mem_cons_self
    have spans := takeWhile_append_of_apart
      (fun symbol isSymbol => isRun.all symbol (List.mem_cons_of_mem _ isSymbol)) apart
    rw [List.cons_append, mapRuns, if_pos isIdentifier, spans.1, spans.2]

/-- The identifiers that are listed with positions are those that are listed without. -/
theorem names_runsFrom (position : Nat) (text : List Char) :
    (runsFrom position text).map (·.name) = names text := by
  rw [names, runs]
  generalize 0 = other
  fun_induction runsFrom position text generalizing other with
  | case1 => rw [runsFrom]
  | case2 position character rest isIdentifier name ih =>
      rw [runsFrom, if_pos isIdentifier, List.map_cons, List.map_cons, ih]
  | case3 position character rest isOther ih =>
      rw [runsFrom, if_neg isOther, ih]

theorem names_nil : names [] = [] := by
  rw [names, runs, runsFrom, List.map_nil]

theorem names_other (other : isIdentifierCharacter character = false) :
    names (character :: rest) = names rest := by
  rw [names, runs, runsFrom, other]
  exact names_runsFrom _ rest

theorem names_run (isRun : IsRun run) (apart : Apart rest) :
    names (run ++ rest) = run :: names rest := by
  rcases run with _ | ⟨character, tail⟩
  · exact absurd rfl isRun.nonempty
  · have isIdentifier := isRun.all character List.mem_cons_self
    have spans := takeWhile_append_of_apart
      (fun symbol isSymbol => isRun.all symbol (List.mem_cons_of_mem _ isSymbol)) apart
    rw [List.cons_append, names, runs, runsFrom, if_pos isIdentifier, spans.1, spans.2,
      List.map_cons, names_runsFrom]

theorem occursIn_iff {name : String} : occursIn name text = true ↔ name.toList ∈ names text := by
  simp [occursIn, names]

/-! ### Texts that do not touch -/

/-- What becomes of a text goes on with an identifier only if the text does, as replacing leaves its
first character alone if it is none of an identifier. -/
theorem apart_mapRuns (apart : Apart text) : Apart (mapRuns replace text) := by
  cases text with
  | nil =>
      rw [mapRuns_nil]
      exact apart_nil
  | cons character rest =>
      have other := apart character rfl
      rw [mapRuns_other other]
      exact apart_cons other

theorem mapRuns_append (apart : Apart right) :
    mapRuns replace (left ++ right) = mapRuns replace left ++ mapRuns replace right := by
  induction left using run_induction with
  | nil => rw [mapRuns_nil, List.nil_append, List.nil_append]
  | other character rest other ih =>
      rw [List.cons_append, mapRuns_other other, mapRuns_other other, ih, List.cons_append]
  | identifier run rest isRun apartRest ih =>
      rw [List.append_assoc, mapRuns_run isRun (apartRest.append apart),
        mapRuns_run isRun apartRest, ih, List.append_assoc]

theorem names_append (apart : Apart right) : names (left ++ right) = names left ++ names right := by
  induction left using run_induction with
  | nil => rw [names_nil, List.nil_append, List.nil_append]
  | other character rest other ih =>
      rw [List.cons_append, names_other other, names_other other, ih]
  | identifier run rest isRun apartRest ih =>
      rw [List.append_assoc, names_run isRun (apartRest.append apart), names_run isRun apartRest,
        ih, List.cons_append]

end Equations

/-! ### Replacing twice -/

/-- The identifiers of the new text are those of what was put in. -/
theorem names_mapRuns (replace : List Char → List Char) (text : List Char) :
    names (mapRuns replace text) = (names text).flatMap fun run => names (replace run) := by
  induction text using run_induction with
  | nil => rw [mapRuns_nil, names_nil, List.flatMap_nil]
  | other character rest other ih =>
      rw [mapRuns_other other, names_other other, names_other other, ih]
  | identifier run rest isRun apart ih =>
      rw [mapRuns_run isRun apart, names_append (apart_mapRuns apart), names_run isRun apart, ih,
        List.flatMap_cons]

/-- Replacing twice is replacing each identifier by what the second replacement makes of its piece.
The pieces do not touch, so the second one finds no others. -/
theorem mapRuns_mapRuns (first second : List Char → List Char) (text : List Char) :
    mapRuns second (mapRuns first text) = mapRuns (fun run => mapRuns second (first run)) text := by
  induction text using run_induction with
  | nil => rw [mapRuns_nil, mapRuns_nil, mapRuns_nil]
  | other character rest other ih =>
      rw [mapRuns_other other, mapRuns_other other, mapRuns_other other, ih]
  | identifier run rest isRun apart ih =>
      rw [mapRuns_run isRun apart, mapRuns_append (apart_mapRuns apart),
        mapRuns_run isRun apart, ih]

/-- Two replacements that agree on the identifiers of a text make the same of it. -/
theorem mapRuns_congr {first second : List Char → List Char}
    (same : ∀ run ∈ names text, first run = second run) :
    mapRuns first text = mapRuns second text := by
  induction text using run_induction with
  | nil => rw [mapRuns_nil, mapRuns_nil]
  | other character rest other ih =>
      rw [names_other other] at same
      rw [mapRuns_other other, mapRuns_other other, ih same]
  | identifier run rest isRun apart ih =>
      rw [names_run isRun apart, List.forall_mem_cons] at same
      rw [mapRuns_run isRun apart, mapRuns_run isRun apart, same.1, ih same.2]

theorem mapRuns_id (text : List Char) : mapRuns id text = text := by
  induction text using run_induction with
  | nil => rw [mapRuns_nil]
  | other character rest other ih => rw [mapRuns_other other, ih]
  | identifier run rest isRun apart ih => rw [mapRuns_run isRun apart, ih, id]

/-- What is listed as an identifier is one. -/
theorem isRun_of_mem_names (isName : run ∈ names text) : IsRun run := by
  induction text using run_induction with
  | nil =>
      rw [names_nil] at isName
      contradiction
  | other character rest other ih =>
      rw [names_other other] at isName
      exact ih isName
  | identifier first rest isRun apart ih =>
      rw [names_run isRun apart] at isName
      rcases List.mem_cons.mp isName with rfl | isName
      · exact isRun
      · exact ih isName

/-- An identifier by itself is the only one of its text. -/
theorem mapRuns_isRun {replace : List Char → List Char} (isRun : IsRun run) :
    mapRuns replace run = replace run := by
  have whole : mapRuns replace (run ++ []) = replace run ++ mapRuns replace [] :=
    mapRuns_run isRun apart_nil
  rwa [List.append_nil, mapRuns_nil, List.append_nil] at whole

theorem names_isRun (isRun : IsRun run) : names run = [run] := by
  have whole := names_run isRun apart_nil
  rwa [List.append_nil, names_nil] at whole

/-! ### Identifiers in their places -/

/-- A whole identifier of a text: it neither begins before its place nor goes on behind it. -/
structure Whole (before run after : List Char) : Prop where
  isRun : IsRun run
  apart : Apart after
  begins : ∀ character ∈ before.getLast?, isIdentifierCharacter character = false

/-- Whether something holds of every whole identifier of a text and what follows it. -/
def Everywhere (holds : (run after : List Char) → Prop) (text : List Char) : Prop :=
  ∀ before run after, text = before ++ run ++ after → Whole before run after → holds run after

section Places

variable {first before after gap : List Char} {holds : List Char → List Char → Prop}

theorem not_apart_run (isRun : IsRun run) : ¬Apart (run ++ after) := by
  intro apart
  cases run with
  | nil => exact isRun.nonempty rfl
  | cons character run =>
      have other := apart character rfl
      rw [isRun.all character List.mem_cons_self] at other
      contradiction

theorem whole_nil (isRun : IsRun run) (apart : Apart rest) : Whole [] run rest where
  isRun := isRun
  apart := apart
  begins := by simp

theorem eq_of_run_append (isFirst : IsRun first) (apart : Apart rest) (isRun : IsRun run)
    (apartAfter : Apart after) (same : first ++ rest = run ++ after) :
    run = first ∧ after = rest := by
  have spans := takeWhile_append_of_apart isFirst.all apart
  have spansRun := takeWhile_append_of_apart isRun.all apartAfter
  rw [same] at spans
  exact ⟨spansRun.1.symm.trans spans.1, spansRun.2.symm.trans spans.2⟩

/-- Behind another character stand the whole identifiers that stand there by themselves. -/
theorem whole_cons_iff (other : isIdentifierCharacter character = false) :
    Whole (character :: gap) run after ↔ Whole gap run after := by
  have ends : (∀ symbol ∈ (character :: gap).getLast?, isIdentifierCharacter symbol = false) ↔
      ∀ symbol ∈ gap.getLast?, isIdentifierCharacter symbol = false := by
    cases gap <;> simp [other]
  exact ⟨fun whole => ⟨whole.isRun, whole.apart, ends.mp whole.begins⟩,
    fun whole => ⟨whole.isRun, whole.apart, ends.mpr whole.begins⟩⟩

/-- Behind an identifier, too, if it does not go on there. -/
theorem whole_append_iff (apart : Apart (gap ++ run ++ after)) :
    Whole (first ++ gap) run after ↔ Whole gap run after := by
  cases gap with
  | nil =>
      constructor
      · exact fun whole => whole_nil whole.isRun whole.apart
      · exact fun whole => absurd apart (not_apart_run whole.isRun)
  | cons symbol gap =>
      have ends : (first ++ symbol :: gap).getLast? = (symbol :: gap).getLast? := by
        simp [List.getLast?_cons]
      exact ⟨fun whole => ⟨whole.isRun, whole.apart, ends ▸ whole.begins⟩,
        fun whole => ⟨whole.isRun, whole.apart, ends ▸ whole.begins⟩⟩

theorem everywhere_nil : Everywhere holds [] := by
  intro before run after shape whole
  simp [whole.isRun.nonempty] at shape

/-- A character that belongs to no identifier does not matter to what holds of all of them. -/
theorem everywhere_other (other : isIdentifierCharacter character = false) :
    Everywhere holds (character :: rest) ↔ Everywhere holds rest := by
  constructor
  · rintro all before run after rfl whole
    exact all (character :: before) run after rfl ((whole_cons_iff other).mpr whole)
  · intro all before run after shape whole
    cases before with
    | nil =>
        have apart : Apart (run ++ after) := shape ▸ apart_cons other
        exact absurd apart (not_apart_run whole.isRun)
    | cons symbol before =>
        obtain ⟨rfl, rfl⟩ := List.cons.inj shape
        exact all before run after rfl ((whole_cons_iff other).mp whole)

/-- An identifier stands in front of those behind it. No other identifier begins within the first
one, for it would touch the characters in front of it. -/
theorem everywhere_run (isRun : IsRun run) (apart : Apart rest) :
    Everywhere holds (run ++ rest) ↔ holds run rest ∧ Everywhere holds rest := by
  constructor
  · intro all
    refine ⟨all [] run rest rfl (whole_nil isRun apart), ?_⟩
    rintro before other after rfl whole
    apply all (run ++ before) other after (by simp)
    exact (whole_append_iff apart).mpr whole
  · rintro ⟨holdsFirst, all⟩ before other after shape whole
    rw [List.append_assoc] at shape
    rcases List.append_eq_append_iff.mp shape with ⟨gap, rfl, rfl⟩ | ⟨gap, rfl, gapShape⟩
    · rw [← List.append_assoc] at apart
      exact all gap other after (by simp) ((whole_append_iff apart).mp whole)
    · cases before with
      | nil =>
          obtain ⟨rfl, rfl⟩ := eq_of_run_append isRun apart whole.isRun whole.apart shape
          exact holdsFirst
      | cons symbol before =>
          obtain ⟨last, isLast⟩ : ∃ last, (symbol :: before).getLast? = some last :=
            ⟨_, List.getLast?_cons⟩
          have within := isRun.all last (List.mem_append_left _ (List.mem_of_getLast? isLast))
          rw [whole.begins last isLast] at within
          contradiction

/-- A character that belongs to no identifier divides a text. -/
theorem everywhere_append_cons (other : isIdentifierCharacter character = false) :
    Everywhere holds (left ++ character :: right) ↔
      Everywhere (fun run after => holds run (after ++ character :: right)) left ∧
        Everywhere holds right := by
  induction left using run_induction with
  | nil => simp [everywhere_other other, everywhere_nil]
  | other symbol rest isOther ih =>
      rw [List.cons_append, everywhere_other isOther, everywhere_other isOther, ih]
  | identifier run rest isRun apart ih =>
      rw [List.append_assoc, everywhere_run isRun (apart.append (apart_cons other)),
        everywhere_run isRun apart, ih, and_assoc]

end Places

end TadsReference.Identifier
