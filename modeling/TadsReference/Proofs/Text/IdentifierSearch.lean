import TadsReference.Proofs.Text.Decoding
import TadsReference.Proofs.Text.IdentifierPlaces

/-!
# Searching the bytes of a text for identifiers

No byte of a character beyond ASCII is that of an identifier character. So a search that goes
through the bytes, wherever it begins, cuts identifiers out of a text as one through the characters
does, and the bytes between which it finds one are those between characters. The identifiers that
are found one behind the other are then those among the tokens: `findsRuns`.
-/

namespace TadsReference

namespace Identifier

open Text.Utf8 (encode)

variable {text before after : List Char} {character : Char} {bytes : List UInt8} {byte : UInt8}
  {passes : UInt8 → Bool} {position start stop other index offset : Nat}

/-- Whether a byte spells an identifier character. -/
def isIdentifierByte (byte : UInt8) : Bool :=
  isIdentifierCharacter (Char.ofNat byte.toNat)

/-- Whether an identifier character stands at an index. -/
def isIdentifierAt (bytes : List UInt8) (index : Nat) : Bool :=
  bytes[index]?.any isIdentifierByte

/-- Passes bytes from an index on as long as they satisfy a predicate. -/
def pass (passes : UInt8 → Bool) (bytes : List UInt8) (index : Nat) : Nat :=
  index + (bytes.drop index).findIdx (!passes ·)

/-- From where a search goes on: if it begins within an identifier, behind this one. -/
def entered (bytes : List UInt8) (position : Nat) : Nat :=
  if 0 < position && isIdentifierAt bytes (position - 1) then
    pass isIdentifierByte bytes position
  else position

/-- A search through the bytes for an identifier that begins at a position or behind it. -/
def search? (bytes : List UInt8) (position : Nat) : Option (Nat × Nat) :=
  let start := pass (!isIdentifierByte ·) bytes (entered bytes position)
  if start < bytes.length then some (start, pass isIdentifierByte bytes start) else none

/-- As many bytes of identifiers as stand together. -/
structure IsByteRun (bytes : List UInt8) (start stop : Nat) : Prop where
  start_lt_stop : start < stop
  all : ∀ index, start ≤ index → index < stop → isIdentifierAt bytes index = true
  begins : ∀ index, index + 1 = start → isIdentifierAt bytes index = false
  ends : isIdentifierAt bytes stop = false

/-! ### Bytes of identifiers -/

theorem utf8EncodeChar_of_ascii (ascii : character.toNat ≤ 127) :
    String.utf8EncodeChar character = [UInt8.ofNat character.toNat] :=
  if_pos ascii

/-- All bytes of a character beyond ASCII are beyond ASCII themselves. -/
theorem lt_of_mem_utf8EncodeChar (beyond : 127 < character.toNat)
    (isPart : byte ∈ String.utf8EncodeChar character) : 127 < byte.toNat := by
  have notAscii : ¬character.val.toNat ≤ 127 := Nat.not_le.mpr beyond
  rw [String.utf8EncodeChar, if_neg notAscii] at isPart
  split at isPart
  · simp only [List.mem_cons, List.not_mem_nil, or_false] at isPart
    rcases isPart with rfl | rfl <;> simp <;> omega
  · split at isPart
    · simp only [List.mem_cons, List.not_mem_nil, or_false] at isPart
      rcases isPart with rfl | rfl | rfl <;> simp <;> omega
    · simp only [List.mem_cons, List.not_mem_nil, or_false] at isPart
      rcases isPart with rfl | rfl | rfl | rfl <;> simp <;> omega

theorem isIdentifierByte_ofNat (ascii : character.toNat ≤ 127) :
    isIdentifierByte (UInt8.ofNat character.toNat) = isIdentifierCharacter character := by
  rw [isIdentifierByte, UInt8.toNat_ofNat', Nat.mod_eq_of_lt (by omega), Char.ofNat_toNat]

/-- The byte of an identifier character is that of an identifier, and no other character has one. A
character beyond ASCII has bytes beyond ASCII only, and these are of no identifier. -/
theorem isIdentifierByte_of_mem (isPart : byte ∈ String.utf8EncodeChar character) :
    isIdentifierByte byte = isIdentifierCharacter character := by
  by_cases ascii : character.toNat ≤ 127
  · rw [utf8EncodeChar_of_ascii ascii, List.mem_singleton] at isPart
    rw [isPart, isIdentifierByte_ofNat ascii]
  · have beyond := lt_of_mem_utf8EncodeChar (Nat.not_le.mp ascii) isPart
    have other : isIdentifierCharacter character = false := by
      rw [Bool.eq_false_iff]
      intro isIdentifier
      have bounds := Text.toNat_of_isIdentifierCharacter isIdentifier
      omega
    rw [other, isIdentifierByte, Bool.eq_false_iff]
    intro isIdentifier
    have bounds := Text.toNat_of_isIdentifierCharacter isIdentifier
    rcases Text.Utf8.toNat_ofNat_eq_or byte.toNat with same | nul
    · omega
    · omega

/-! ### Passing bytes -/

theorem le_pass (passes : UInt8 → Bool) (bytes : List UInt8) (index : Nat) :
    index ≤ pass passes bytes index :=
  Nat.le_add_right _ _

/-- What has been passed satisfies the predicate. -/
theorem passes_of_lt_pass (behind : position ≤ index)
    (inside : index < pass passes bytes position) : bytes[index]?.any passes = true := by
  have within : index - position < (bytes.drop position).findIdx (!passes ·) := by
    rw [pass] at inside
    omega
  have stays := List.not_of_lt_findIdx within
  have bound := Nat.lt_of_lt_of_le within List.findIdx_le_length
  have there : bytes[index]? = some (bytes.drop position)[index - position] := by
    rw [← List.getElem?_eq_getElem bound, List.getElem?_drop, Nat.add_sub_cancel' behind]
  rw [there]
  simpa using stays

theorem not_passes_pass (passes : UInt8 → Bool) (bytes : List UInt8) (position : Nat) :
    bytes[pass passes bytes position]?.any passes = false := by
  rw [pass, ← List.getElem?_drop]
  by_cases bound : (bytes.drop position).findIdx (!passes ·) < (bytes.drop position).length
  · have stops := List.findIdx_getElem (w := bound)
    rw [List.getElem?_eq_getElem bound]
    simpa using stops
  · rw [List.getElem?_eq_none (Nat.not_lt.mp bound)]
    rfl

/-- No byte is both that of an identifier and that of another character. -/
theorem isIdentifierAt_of_other (other : bytes[index]?.any (!isIdentifierByte ·) = true) :
    isIdentifierAt bytes index = false := by
  unfold isIdentifierAt
  cases there : bytes[index]? with
  | none => rfl
  | some byte =>
      rw [there] at other
      simpa using other

theorem isIdentifierAt_of_not_other (bound : index < bytes.length)
    (notOther : bytes[index]?.any (!isIdentifierByte ·) = false) :
    isIdentifierAt bytes index = true := by
  unfold isIdentifierAt
  rw [List.getElem?_eq_getElem bound] at notOther ⊢
  simpa using notOther

/-! ### What is found among the bytes -/

/-- Where an identifier begins is not passed. -/
theorem IsByteRun.pass_le (isRun : IsByteRun bytes start stop) (behind : position ≤ start) :
    pass (!isIdentifierByte ·) bytes position ≤ start := by
  by_contra passed
  have isOther := isIdentifierAt_of_other (passes_of_lt_pass behind (Nat.not_le.mp passed))
  rw [isRun.all start (Nat.le_refl start) isRun.start_lt_stop] at isOther
  contradiction

/-- The rest of an identifier is passed before the next one begins. If the search passed its start,
the byte before the start would be one of an identifier, too. -/
theorem IsByteRun.entered_le (isRun : IsByteRun bytes start stop) (behind : position ≤ start) :
    entered bytes position ≤ start := by
  unfold entered
  split
  · next within =>
      simp only [Bool.and_eq_true, decide_eq_true_iff] at within
      by_contra passed
      have notLast := isRun.begins (start - 1) (by omega)
      have isLast : isIdentifierAt bytes (start - 1) = true := by
        by_cases first : position = start
        · exact first ▸ within.2
        · have inner : position ≤ start - 1 := by omega
          exact passes_of_lt_pass inner (by omega)
      rw [notLast] at isLast
      contradiction
  · exact behind

/-- Two identifiers that begin at one place are the same. -/
theorem IsByteRun.stop_eq (isRun : IsByteRun bytes start stop)
    (isOther : IsByteRun bytes start other) : stop = other := by
  have before := isRun.start_lt_stop
  have beforeOther := isOther.start_lt_stop
  rcases Nat.lt_trichotomy stop other with shorter | same | longer
  · have goesOn := isOther.all stop (by omega) shorter
    rw [isRun.ends] at goesOn
    contradiction
  · exact same
  · have goesOn := isRun.all other (by omega) longer
    rw [isOther.ends] at goesOn
    contradiction

theorem le_entered (bytes : List UInt8) (position : Nat) : position ≤ entered bytes position := by
  unfold entered
  split
  · exact le_pass _ _ _
  · exact Nat.le_refl position

/-- Where the search goes on an identifier can begin. -/
theorem not_isIdentifierAt_before_entered
    (begins : isIdentifierAt bytes (entered bytes position) = true)
    (before : index + 1 = entered bytes position) : isIdentifierAt bytes index = false := by
  unfold entered at begins before
  split at begins
  · have ended := not_passes_pass isIdentifierByte bytes position
    rw [isIdentifierAt, ended] at begins
    contradiction
  · next apart =>
      rw [if_neg apart] at before
      subst before
      simpa using apart

/-- What a search finds are as many bytes of identifiers as stand together. It starts behind an
identifier if it begins within one, so nothing in front belongs to it. -/
theorem isByteRun_of_search? (found : search? bytes position = some (start, stop)) :
    IsByteRun bytes start stop ∧ position ≤ start := by
  unfold search? at found
  simp only [Option.ite_none_right_eq_some, Option.some.injEq, Prod.mk.injEq] at found
  obtain ⟨bound, rfl, rfl⟩ := found
  generalize reached : pass (!isIdentifierByte ·) bytes (entered bytes position) = start at bound
  have behind : entered bytes position ≤ start := reached ▸ le_pass _ _ _
  have begins : isIdentifierAt bytes start = true :=
    isIdentifierAt_of_not_other bound (reached ▸ not_passes_pass _ _ _)
  have ended := not_passes_pass isIdentifierByte bytes start
  refine ⟨⟨?_, ?_, ?_, ended⟩, Nat.le_trans (le_entered bytes position) behind⟩
  · apply Nat.lt_of_le_of_ne (le_pass _ _ _)
    intro same
    rw [← same, ← isIdentifierAt, begins] at ended
    contradiction
  · intro index isBehind inside
    exact passes_of_lt_pass isBehind inside
  · intro index before
    by_cases first : entered bytes position = start
    · subst first
      exact not_isIdentifierAt_before_entered begins before
    · have inner : entered bytes position ≤ index := by omega
      exact isIdentifierAt_of_other (passes_of_lt_pass inner (by omega))

theorem lt_length_of_isIdentifierAt (there : isIdentifierAt bytes index = true) :
    index < bytes.length := by
  by_contra outside
  rw [isIdentifierAt, List.getElem?_eq_none (Nat.not_lt.mp outside)] at there
  contradiction

theorem search?_of_isByteRun (isRun : IsByteRun bytes start stop) (behind : position ≤ start) :
    ∃ first firstStop, search? bytes position = some (first, firstStop) ∧ first ≤ start := by
  have reached := isRun.pass_le (isRun.entered_le behind)
  have there := isRun.all start (Nat.le_refl start) isRun.start_lt_stop
  have bound := lt_length_of_isIdentifierAt there
  exact ⟨_, _, if_pos (Nat.lt_of_le_of_lt reached bound), reached⟩

/-! ### The bytes of identifiers -/

/-- Every byte of a text is one of a character's. -/
theorem exists_character_at (bound : index < (encode text).length) :
    ∃ before character after offset, text = before ++ character :: after ∧
      offset < (String.utf8EncodeChar character).length ∧
      index = (encode before).length + offset := by
  induction text generalizing index with
  | nil => contradiction
  | cons first rest ih =>
      by_cases inside : index < (String.utf8EncodeChar first).length
      · exact ⟨[], first, rest, index, rfl, inside, (Nat.zero_add index).symm⟩
      · have further : index - (String.utf8EncodeChar first).length < (encode rest).length := by
          rw [Text.Utf8.encode_cons, List.length_append] at bound
          omega
        obtain ⟨before, character, after, offset, rfl, within, same⟩ := ih further
        refine ⟨first :: before, character, after, offset, rfl, within, ?_⟩
        rw [Text.Utf8.encode_cons, List.length_append]
        omega

theorem isIdentifierAt_encode (within : offset < (String.utf8EncodeChar character).length) :
    isIdentifierAt (encode (before ++ character :: after)) ((encode before).length + offset) =
      isIdentifierCharacter character := by
  have there : (encode (before ++ character :: after))[(encode before).length + offset]? =
      some (String.utf8EncodeChar character)[offset] := by
    rw [Text.Utf8.encode_append, List.getElem?_append_right (Nat.le_add_right _ _),
      Nat.add_sub_cancel_left, Text.Utf8.encode_cons, List.getElem?_append_left within,
      List.getElem?_eq_getElem within]
  rw [isIdentifierAt, there]
  exact isIdentifierByte_of_mem (List.getElem_mem within)

theorem any_eq_false_iff {character? : Option Char} :
    character?.any isIdentifierCharacter = false ↔
      ∀ character ∈ character?, isIdentifierCharacter character = false := by
  cases character? <;> simp

theorem isIdentifierAt_length_encode (before after : List Char) :
    isIdentifierAt (encode (before ++ after)) (encode before).length =
      after.head?.any isIdentifierCharacter := by
  cases after with
  | nil => simp [isIdentifierAt]
  | cons character after =>
      exact isIdentifierAt_encode (Text.Utf8.length_utf8EncodeChar_pos character)

/-- The byte in front of a place between two characters is decided by the character in front. -/
theorem isIdentifierAt_last (last : index + 1 = (encode before).length) (after : List Char) :
    isIdentifierAt (encode (before ++ after)) index =
      before.getLast?.any isIdentifierCharacter := by
  rcases List.eq_nil_or_concat before with rfl | ⟨front, character, rfl⟩
  · contradiction
  · have positive := Text.Utf8.length_utf8EncodeChar_pos character
    have place : index = (encode front).length +
        ((String.utf8EncodeChar character).length - 1) := by
      simp only [List.concat_eq_append, Text.Utf8.encode_append, Text.Utf8.encode_cons,
        Text.Utf8.encode_nil, List.append_nil, List.length_append] at last
      omega
    rw [List.concat_eq_append, List.append_assoc, List.singleton_append, place,
      isIdentifierAt_encode (by omega)]
    simp

/-- The bytes of a whole identifier are as many bytes of identifiers as stand together, for what
stands on either side of it are no identifier characters. -/
theorem isByteRun_of_isRunFrom {run : Run} (isRun : IsRunFrom 0 text run) :
    IsByteRun (encode text) run.start run.stop := by
  have nonempty := start_lt_stop isRun
  obtain ⟨before, after, rfl, whole, start, stop⟩ := isRun
  rw [Nat.zero_add] at start
  refine ⟨nonempty, ?_, ?_, ?_⟩
  · intro index behind inside
    have bound : index - run.start < (encode run.name).length := by omega
    obtain ⟨front, character, rest, offset, shape, within, same⟩ := exists_character_at bound
    have split : before ++ run.name ++ after =
        (before ++ front) ++ character :: (rest ++ after) := by
      simp [shape]
    have place : index = (encode (before ++ front)).length + offset := by
      rw [Text.Utf8.encode_append, List.length_append]
      omega
    rw [split, place, isIdentifierAt_encode within]
    exact whole.isRun.all character (by simp [shape])
  · intro index last
    rw [List.append_assoc, isIdentifierAt_last (last.trans start), any_eq_false_iff]
    exact whole.begins
  · have ended : run.stop = (encode (before ++ run.name)).length := by
      rw [Text.Utf8.encode_append, List.length_append]
      omega
    rw [ended, isIdentifierAt_length_encode, any_eq_false_iff]
    exact whole.apart

theorem isRunFrom_of_whole {name : List Char} (whole : Whole before name after) :
    IsRunFrom 0 (before ++ name ++ after)
      ⟨(encode before).length, (encode before).length + (encode name).length, name⟩ :=
  ⟨before, after, rfl, whole, (Nat.zero_add _).symm, rfl⟩

/-- As many bytes of identifiers as stand together are those of a whole identifier. Its ends lie
between characters, since a character has all of its bytes on one side. -/
theorem exists_isRunFrom_of_isByteRun (isRun : IsByteRun (encode text) start stop) :
    ∃ run, IsRunFrom 0 text run ∧ run.start = start ∧ run.stop = stop := by
  have there := isRun.all start (Nat.le_refl start) isRun.start_lt_stop
  have bound := lt_length_of_isIdentifierAt there
  obtain ⟨before, character, tail, offset, rfl, within, place⟩ := exists_character_at bound
  have isIdentifier : isIdentifierCharacter character = true := by
    rwa [place, isIdentifierAt_encode within] at there
  have single := length_utf8EncodeChar_of_isIdentifier isIdentifier
  obtain rfl : start = (encode before).length := by omega
  have split : before ++ character :: tail =
      before ++ (character :: tail.takeWhile isIdentifierCharacter) ++
        tail.dropWhile isIdentifierCharacter := by
    simp
  have begins : ∀ last ∈ before.getLast?, isIdentifierCharacter last = false := by
    by_cases none : before = []
    · simp [none]
    · have positive := Text.Utf8.length_encode_pos none
      have notLast := isRun.begins ((encode before).length - 1) (by omega)
      rwa [isIdentifierAt_last (by omega), any_eq_false_iff] at notLast
  have whole : Whole before (character :: tail.takeWhile isIdentifierCharacter)
      (tail.dropWhile isIdentifierCharacter) :=
    ⟨isRun_takeWhile isIdentifier tail, apart_dropWhile tail, begins⟩
  have isFound := isRunFrom_of_whole whole
  rw [← split] at isFound
  exact ⟨_, isFound, rfl, (isByteRun_of_isRunFrom isFound).stop_eq isRun⟩

/-- A search through the bytes finds what one through the characters does. Runs of bytes are runs of
characters and the other way round, and both searches find the first one. -/
theorem search?_encode (text : List Char) (position : Nat) :
    search? (encode text) position =
      (find? text position).map fun run => (run.start, run.stop) := by
  cases found : find? text position with
  | none =>
      have before := find?_eq_none_iff.mp found
      cases searched : search? (encode text) position with
      | none => rfl
      | some place =>
          obtain ⟨isRun, behind⟩ := isByteRun_of_search? searched
          obtain ⟨run, isRun, start, _⟩ := exists_isRunFrom_of_isByteRun isRun
          have earlier := before run isRun
          omega
  | some first =>
      obtain ⟨isFirst, behind, least⟩ := find?_eq_some_iff.mp found
      have isByteRun := isByteRun_of_isRunFrom isFirst
      obtain ⟨start, stop, searched, notBehind⟩ := search?_of_isByteRun isByteRun behind
      obtain ⟨isRun, within⟩ := isByteRun_of_search? searched
      obtain ⟨run, isOther, rfl, rfl⟩ := exists_isRunFrom_of_isByteRun isRun
      have same : run.start = first.start :=
        Nat.le_antisymm notBehind (least run isOther within)
      rw [same] at isRun
      rw [searched, Option.map_some, same, isRun.stop_eq isByteRun]

/-! ### All that is found -/

/-- What searching a text for identifiers finds. -/
structure FindsRuns (text : List Char) : Prop where
  first : ∀ position run, find? text position = some run ↔
    IsRunFrom 0 text run ∧ position ≤ run.start ∧
      ∀ other, IsRunFrom 0 text other → position ≤ other.start → run.start ≤ other.start
  none : ∀ position,
    find? text position = none ↔ ∀ run, IsRunFrom 0 text run → run.start < position
  searched : ∀ position, search? (encode text) position =
    (find? text position).map fun run => (run.start, run.stop)
  bounded : ∀ position, ∀ run ∈ find? text position,
    String.Pos.Raw.IsValid (String.ofList text) ⟨run.start⟩ ∧
      String.Pos.Raw.IsValid (String.ofList text) ⟨run.stop⟩
  enumerated : ∀ position found,
    Enumerated text position found ↔ found = runsAfter text position
  listed : ∀ position run,
    run ∈ runsAfter text position ↔ IsRunFrom 0 text run ∧ position ≤ run.start
  ordered : ∀ position,
    (runsAfter text position).Pairwise fun earlier later => earlier.stop ≤ later.start
  tokens : (tokensFrom 0 text).map (String.ofList ·.name) = Token.all text
  identifiers : (tokensFrom 0 text).filter (IsRun ·.name) = runsAfter text 0
  occurs : ∀ name, occursIn name text = true ↔ ∃ run ∈ runsAfter text 0, run.name = name.toList
  isToken : ∀ name, IsRun name.toList → (occursIn name text = true ↔ name ∈ Token.all text)

theorem isValid_length_encode (before after : List Char) :
    String.Pos.Raw.IsValid (String.ofList (before ++ after)) ⟨(encode before).length⟩ := by
  refine String.Pos.Raw.isValid_ofList.mpr ⟨before.length, ?_⟩
  rw [List.take_left, ← Text.Utf8.length_encode_eq_utf8ByteSize]

/-- An identifier begins and ends between two characters, so its positions are valid in the text. -/
theorem isValid_of_isRunFrom {run : Run} (isRun : IsRunFrom 0 text run) :
    String.Pos.Raw.IsValid (String.ofList text) ⟨run.start⟩ ∧
      String.Pos.Raw.IsValid (String.ofList text) ⟨run.stop⟩ := by
  obtain ⟨before, after, rfl, _, start, stop⟩ := isRun
  have ended : run.stop = (encode (before ++ run.name)).length := by
    rw [Text.Utf8.encode_append, List.length_append]
    omega
  rw [start, ended, Nat.zero_add]
  constructor
  · rw [List.append_assoc]
    exact isValid_length_encode before _
  · exact isValid_length_encode _ after

theorem runsAfter_zero (text : List Char) : runsAfter text 0 = runs text := by
  rw [runsAfter, List.filter_eq_self]
  intro run _
  simp

theorem exists_mem_runsAfter_iff {name : String} :
    (∃ run ∈ runsAfter text 0, run.name = name.toList) ↔ occursIn name text = true := by
  rw [runsAfter_zero, occursIn_iff, names, List.mem_map]

/-- The identifiers among the tokens of a text are those that occur in it. -/
theorem occursIn_iff_mem_tokens {name : String} (isRun : IsRun name.toList) :
    occursIn name text = true ↔ name ∈ Token.all text := by
  rw [occursIn_iff, names, runs, ← filter_tokensFrom, ← map_name_tokensFrom 0, List.mem_map,
    List.mem_map]
  constructor
  · rintro ⟨run, isPart, same⟩
    exact ⟨run, (List.mem_filter.mp isPart).1, by rw [same, String.ofList_toList]⟩
  · rintro ⟨run, isPart, rfl⟩
    rw [String.toList_ofList] at isRun ⊢
    exact ⟨run, List.mem_filter.mpr ⟨isPart, by simpa using isRun⟩, rfl⟩

/-- However often a text is searched for identifiers, and from wherever, even from within one or
from within a character, what is found are the whole identifiers that begin there or behind it. They
lie between characters, and they are the tokens of the text that are identifiers. The bytes are
searched as the characters are, because the bytes of identifiers are found in no other character. -/
theorem findsRuns (text : List Char) : FindsRuns text where
  first _ _ := find?_eq_some_iff
  none _ := find?_eq_none_iff
  searched := search?_encode text
  bounded _ _ found := isValid_of_isRunFrom (find?_eq_some_iff.mp found).1
  enumerated _ _ := enumerated_iff
  listed _ _ := mem_runsAfter_iff
  ordered := pairwise_runsAfter text
  tokens := map_name_tokensFrom 0 text
  identifiers := (filter_tokensFrom 0 text).trans (runsAfter_zero text).symm
  occurs _ := exists_mem_runsAfter_iff.symm
  isToken _ := occursIn_iff_mem_tokens

example : search? (encode "é = lit2;".toList) 1 = some (5, 9) := by decide

example : search? (encode "é = lit2;".toList) 6 = none := by decide

end Identifier

end TadsReference
