import TadsReference.Entry.OfFile
import TadsReference.Proofs.Page.Addresses
import TadsReference.Proofs.Text.Tokens

/-!
# Names of blocks

Classes and objects are called by tokens, and grammar rules by tokens with a tag between
parentheses. In none of these names does a slash follow a dot: `addressable_of_ofFile`.
-/

namespace TadsReference

namespace Token

variable {text rest : List Char} {token : String}

/-- No token has a slash behind a dot in it: an operator holds no such pair, an identifier holds
neither of the two, and any other token is one character. -/
theorem undotted_of_scan? (scanned : scan? text = some (token, rest)) :
    Undotted token.toList := by
  have ofOperator : ∀ operator ∈ operators, Undotted operator.toList := by decide
  rcases scan?_cases scanned with ⟨found, _⟩ | ⟨_, ⟨run, isRun, _, rfl, _⟩ | ⟨character, _, rfl, _⟩⟩
  · exact ofOperator token (List.mem_of_find?_eq_some found)
  · apply Undotted.of_no_slash
    intro isSlash
    rw [String.toList_ofList] at isSlash
    exact absurd (isRun.all '/' isSlash) (by decide)
  · rw [String.toList_singleton]
    exact List.isChain_singleton _

theorem undotted_of_next? {line : List Char} (read : next? line = some (token, rest)) :
    Undotted token.toList :=
  undotted_of_scan? read

theorem undotted_next (line : List Char) : Undotted (next line).1.toList := by
  unfold next
  cases read : next? line with
  | none => exact List.isChain_nil
  | some found => exact undotted_of_next? read

end Token

/-! ### What is declared -/

namespace Declared

/-- Whether what is declared has a page of its own. -/
def hasPage : Declared → Bool
  | classBlock _ | objectBlock _ => true
  | _ => false

end Declared

/-- Whether a declaration has no page of its own, or a name that can stand in the address of one. -/
def Addressable (name : String) (declared : Declared) : Prop :=
  declared.hasPage = true → Undotted name.toList

namespace Entry

/-- Whether an entry declares nothing whose name cannot stand in an address. -/
def Addressable : Entry → Prop
  | declaration name _ _ declared => TadsReference.Addressable name declared
  | _ => True

end Entry

variable {found : String × Declared}

/-- A class is called by a token, unless the line declares something that has no page. -/
theorem addressable_of_classHead? {rest sourceText : List Char}
    (head : classHead? rest sourceText = some found) : Addressable found.1 found.2 := by
  unfold classHead? at head
  split at head
  · contradiction
  · next read =>
      split at head
      · cases head
        exact fun _ => Token.undotted_of_next? read
      · contradiction

theorem addressable_of_intrinsicClassHead? {rest : List Char}
    (head : intrinsicClassHead? rest = some found) : Addressable found.1 found.2 := by
  rcases Option.map_eq_some_iff.mp head with ⟨token, read, rfl⟩
  exact fun _ => Token.undotted_of_next? read

theorem addressable_of_modifyHead? {rest : List Char} (head : modifyHead? rest = some found) :
    Addressable found.1 found.2 := by
  rcases Option.map_eq_some_iff.mp head with ⟨token, _, rfl⟩
  intro hasPage
  contradiction

theorem addressable_of_actionHead? {macroName : String} {rest : List Char}
    (head : actionHead? macroName rest = some found) : Addressable found.1 found.2 := by
  rcases Option.map_eq_some_iff.mp head with ⟨token, read, rfl⟩
  exact fun _ => Token.undotted_of_next? read

namespace GrammarRule

/-- A tag between parentheses behind a name. -/
theorem undotted_tagged {stem tag : String} (ofStem : Undotted stem.toList)
    (ofTag : Undotted tag.toList) : Undotted (stem ++ "(" ++ tag ++ ")").toList := by
  have closed : Undotted (tag.toList ++ [')']) :=
    ofTag.append (List.isChain_singleton _) (by decide)
  have opened : Undotted ('(' :: (tag.toList ++ [')'])) := closed.cons (by decide)
  simpa using ofStem.append opened (by simp)

/-- The name of a grammar rule is a token, or one with a tag behind it that ends at the first
closing parenthesis, so that no slash can follow a dot where the two meet. -/
theorem undotted_of_name? {verbRule : Bool} {rest sourceText : List Char} {head : Head}
    (read : name? verbRule rest sourceText = some head) : Undotted head.name.toList := by
  unfold name? at read
  split at read
  · contradiction
  · next name behind first =>
      have ofName : Undotted name.toList := Token.undotted_of_next? first
      split at read
      · simp only at read
        split at read
        · cases read
          apply undotted_tagged _ (Token.undotted_next _)
          split
          · decide
          · exact ofName
        · contradiction
      · cases read
        exact ofName

/-- The head of a grammar rule is read in the same way whether it is a `grammar` line or a call of a
macro that makes a rule. -/
theorem undotted_of_head? {rest sourceText : List Char} {head : Head}
    (read : head? rest sourceText = some head) : Undotted head.name.toList := by
  rcases Option.bind_eq_some_iff.mp read with ⟨named, isNamed, read⟩
  have ofName := undotted_of_name? isNamed
  split at read
  · cases read
    exact ofName
  · split at read
    · cases read
      exact ofName
    · contradiction

end GrammarRule

/-! ### Forms of lines -/

namespace LineForm

/-- Whether the name of an object's form can stand in an address. -/
def Addressable : LineForm → Prop
  | objectHead name _ _ => Undotted name.toList
  | _ => True

/-- The forms of a line whose first token is a keyword. The text stands behind the keyword. -/
inductive OfKeyword (rest : List Char) : LineForm → Prop
  | intrinsicClass : OfKeyword rest (.intrinsicClass (Token.next rest).2)
  | functionSet : OfKeyword rest .functionSet
  | classHead : OfKeyword rest (.classHead rest)
  | grammarRule : OfKeyword rest (.grammarRule rest)
  | modifyBlock : OfKeyword rest (.modifyBlock rest)
  | comment : OfKeyword rest (.comment rest)
  | enumeration : OfKeyword rest (.enumeration rest)
  | macroDefinition : OfKeyword rest (.macroDefinition (Token.next rest).2)
  | other : OfKeyword rest .other

end LineForm

namespace LineShape

/-- A line begins with a keyword or with a name, before which a hash may stand. All that follows
about names is proved for these cases, so a keyword that is added to the language adds a case here
only. -/
theorem ofFirst_cases (isHeader : Bool) (indent : Nat) (transient : Bool) (token : String)
    (rest : List Char) :
    (∃ form, form.OfKeyword rest ∧
      ofFirst isHeader indent transient token rest = ⟨false, form⟩) ∨
    ofFirst isHeader indent transient token rest = ofName isHeader indent transient token rest ∨
    ofFirst isHeader indent transient token rest =
      ofName isHeader indent transient (Token.next rest).1 (Token.next rest).2 := by
  unfold ofFirst
  split
  · refine .inl ?_
    split
    · next behind next =>
        obtain rfl : behind = (Token.next rest).2 := by rw [next]
        exact ⟨_, .intrinsicClass, rfl⟩
    · exact ⟨_, .functionSet, rfl⟩
    · exact ⟨_, .other, rfl⟩
  · exact .inl ⟨_, .classHead, rfl⟩
  · exact .inl ⟨_, .grammarRule, rfl⟩
  · exact .inl ⟨_, .grammarRule, rfl⟩
  · exact .inl ⟨_, .modifyBlock, rfl⟩
  · exact .inl ⟨_, .comment, rfl⟩
  · split
    · exact .inl ⟨_, .enumeration, rfl⟩
    · exact .inr (.inl rfl)
  · dsimp only
    split
    · exact .inl ⟨_, .macroDefinition, rfl⟩
    · exact .inr (.inr rfl)
  · exact .inr (.inl rfl)

/-- The first token of a line is taken from its beginning, or from behind a modifier. -/
theorem exists_ofLine_eq_ofFirst (isHeader : Bool) (indent : Nat) (body : List Char) :
    ∃ transient text, (text = body ∨ text = (Token.next body).2) ∧
      ofLine isHeader indent body =
        ofFirst isHeader indent transient (Token.next text).1 (Token.next text).2 := by
  unfold ofLine
  split
  · next rest next => exact ⟨true, rest, .inr (by rw [next]), rfl⟩
  · next next => exact ⟨false, body, .inl rfl, by rw [next]⟩

/-- A line whose first token is a name declares under this name, whatever stands behind it. -/
theorem addressable_ofName (isHeader : Bool) (indent : Nat) (transient : Bool) {token : String}
    (ofToken : Undotted token.toList) (rest : List Char) :
    (ofName isHeader indent transient token rest).form.Addressable := by
  have ofChosen : Undotted
      (if token == "//" && indent == 4 then Token.next rest else (token, rest)).1.toList := by
    split
    · exact Token.undotted_next rest
    · exact ofToken
  simp only [ofName]
  generalize (if token == "//" && indent == 4 then Token.next rest else (token, rest)) = chosen
    at ofChosen ⊢
  split_ifs <;> first | exact ofChosen | trivial

/-- Every form of line has a name that comes from a token. It is the first token itself or, behind
two slashes, the one after it. -/
theorem addressable_ofFirst (isHeader : Bool) (indent : Nat) (transient : Bool) {token : String}
    (ofToken : Undotted token.toList) (rest : List Char) :
    (ofFirst isHeader indent transient token rest).form.Addressable := by
  rcases ofFirst_cases isHeader indent transient token rest with
    ⟨form, isKeyword, same⟩ | same | same
  · rw [same]
    cases isKeyword <;> trivial
  · rw [same]
    exact addressable_ofName isHeader indent transient ofToken rest
  · rw [same]
    exact addressable_ofName isHeader indent transient (Token.undotted_next rest) _

theorem addressable_ofLine (isHeader : Bool) (indent : Nat) (body : List Char) :
    (ofLine isHeader indent body).form.Addressable := by
  obtain ⟨transient, text, _, same⟩ := exists_ofLine_eq_ofFirst isHeader indent body
  rw [same]
  exact addressable_ofFirst isHeader indent transient (Token.undotted_next text) _

end LineShape

/-! ### Entries of lines -/

/-- Whether this is so of all entries. -/
def AllAddressable (entries : List Entry) : Prop :=
  ∀ entry ∈ entries, entry.Addressable

theorem allAddressable_nil : AllAddressable [] := by
  simp [AllAddressable]

theorem allAddressable_append {first second : List Entry} (ofFirst : AllAddressable first)
    (ofSecond : AllAddressable second) : AllAddressable (first ++ second) := by
  intro entry isEntry
  rcases List.mem_append.mp isEntry with isFirst | isSecond
  · exact ofFirst entry isFirst
  · exact ofSecond entry isSecond

section Recording

variable (context : Context) (line : Nat)

theorem addressable_record {declared : Option (String × Declared)}
    (addressable : ∀ found, declared = some found → Addressable found.1 found.2) :
    AllAddressable (context.record line declared).1.toList := by
  cases declared with
  | none => exact allAddressable_nil
  | some found => simpa [AllAddressable, Context.record, Entry.Addressable] using addressable

theorem addressable_record_of_not_hasPage {declared : Option (String × Declared)}
    (without : ∀ found, declared = some found → found.2.hasPage = false) :
    AllAddressable (context.record line declared).1.toList := by
  apply addressable_record
  intro found isFound hasPage
  simp [without found isFound] at hasPage

end Recording

namespace Recognised

variable {reader : Reader} {result : Recognised}

theorem addressable_of_ofLine {outcome : Option Entry × Context}
    (recognised : ofLine outcome reader = .ok result)
    (addressable : AllAddressable outcome.1.toList) : AllAddressable result.entry.toList := by
  cases recognised
  exact addressable

/-- A construct that spans lines declares what is made of its value at the end. So it is enough to
look at what can be made of any value. -/
theorem addressable_of_gathered {State Value : Type}
    {step : State → List Char → Progress State Value} {progress : Progress State Value}
    {finish : Value → Option Entry × Context}
    (recognised : gathered step progress finish reader = .ok result)
    (addressable : ∀ value, AllAddressable (finish value).1.toList) :
    AllAddressable result.entry.toList := by
  unfold gathered at recognised
  split at recognised
  · next value later _ =>
      cases recognised
      exact addressable value
  · contradiction

/-- Macros have no page, so their names need not be looked at. -/
theorem addressable_of_definedMacro {context : Context} {line : Nat} {rest : List Char}
    (recognised : definedMacro context line rest reader = .ok result) :
    AllAddressable result.entry.toList := by
  unfold definedMacro at recognised
  split at recognised
  · exact addressable_of_ofLine recognised allAddressable_nil
  · split at recognised
    · apply addressable_of_ofLine recognised
      apply addressable_record_of_not_hasPage
      rintro _ ⟨⟩
      rfl
    · exact addressable_of_ofLine recognised allAddressable_nil
    · contradiction

end Recognised

namespace Context

variable {context : Context} {indent line : Nat} {reader : Reader} {result : Recognised}

/-- Methods have no page of their own, and neither has a function. What is written like a method is
one of these or is not recorded at all. -/
theorem addressable_of_recogniseMethod {name : String} {rest : List Char} {interfaceOnly : Bool}
    (recognised :
      context.recogniseMethod indent line name rest interfaceOnly reader = .ok result) :
    AllAddressable result.entry.toList := by
  unfold recogniseMethod at recognised
  split at recognised
  · apply Recognised.addressable_of_gathered recognised
    intro list
    cases list with
    | none => exact allAddressable_nil
    | some list =>
        apply addressable_record_of_not_hasPage
        rintro _ ⟨⟩
        unfold methodNamed
        split
        · split <;> rfl
        · rfl
  · exact Recognised.addressable_of_ofLine recognised allAddressable_nil

theorem addressable_record_functionNamed (name : String) (list : ParameterList.Result) :
    AllAddressable (context.record line (functionNamed name list)).1.toList := by
  apply addressable_record_of_not_hasPage
  intro found isFound
  rcases Option.map_eq_some_iff.mp isFound with ⟨_, _, rfl⟩
  rfl

/-- A call declares an action, a function or a method. Only an action has a page of its own, and its
name is a token. -/
theorem addressable_of_recogniseCall {name : String} {rest : List Char} {interfaceOnly : Bool}
    (recognised : context.recogniseCall indent line name rest interfaceOnly reader = .ok result) :
    AllAddressable result.entry.toList := by
  unfold recogniseCall at recognised
  split at recognised
  · apply Recognised.addressable_of_ofLine recognised
    exact addressable_record _ _ fun _ => addressable_of_actionHead?
  · split at recognised
    · exact Recognised.addressable_of_ofLine recognised allAddressable_nil
    · split at recognised
      · apply Recognised.addressable_of_gathered recognised
        exact addressable_record_functionNamed name
      · split at recognised
        · apply Recognised.addressable_of_gathered recognised
          exact addressable_record_functionNamed name
        · exact addressable_of_recogniseMethod recognised

/-- A line declares no class and no object under a name that cannot stand in an address. The name of
a class or an object is a token of the line or that of a grammar rule, and neither has a slash
behind a dot. -/
theorem addressable_of_recognise {sourceText : List Char} {form : LineForm}
    (ofForm : form.Addressable)
    (recognised : context.recognise indent line sourceText reader form = .ok result) :
    AllAddressable result.entry.toList := by
  cases form with
  | intrinsicClass rest =>
      apply Recognised.addressable_of_ofLine recognised
      exact addressable_record _ _ fun _ => addressable_of_intrinsicClassHead?
  | functionSet => exact Recognised.addressable_of_ofLine recognised allAddressable_nil
  | classHead rest =>
      apply Recognised.addressable_of_ofLine recognised
      exact addressable_record _ _ fun _ => addressable_of_classHead?
  | grammarRule rest =>
      simp only [recognise] at recognised
      split at recognised
      · exact Recognised.addressable_of_ofLine recognised allAddressable_nil
      · next head read =>
          apply Recognised.addressable_of_gathered recognised
          intro rule
          apply addressable_record
          rintro _ ⟨⟩ _
          exact GrammarRule.undotted_of_head? read
  | modifyBlock rest =>
      apply Recognised.addressable_of_ofLine recognised
      exact addressable_record _ _ fun _ => addressable_of_modifyHead?
  | comment rest =>
      apply Recognised.addressable_of_gathered recognised
      intro text
      unfold keepComment
      split <;> simp [AllAddressable, Entry.Addressable]
  | enumeration rest =>
      apply Recognised.addressable_of_ofLine recognised
      simp [AllAddressable, recordEnum, Entry.Addressable]
  | macroDefinition rest => exact Recognised.addressable_of_definedMacro recognised
  | template name rest =>
      apply Recognised.addressable_of_gathered recognised
      intro body
      apply addressable_record_of_not_hasPage
      rintro _ ⟨⟩
      rfl
  | assignment name interfaceOnly =>
      simp only [recognise, recogniseProperty] at recognised
      split at recognised
      · apply Recognised.addressable_of_ofLine recognised
        apply addressable_record_of_not_hasPage
        rintro _ ⟨⟩
        rfl
      · exact Recognised.addressable_of_ofLine recognised allAddressable_nil
  | objectHead name rest transient =>
      simp only [recognise] at recognised
      split at recognised
      · apply Recognised.addressable_of_ofLine recognised
        apply addressable_record
        rintro _ ⟨⟩ _
        exact ofForm
      · exact Recognised.addressable_of_ofLine recognised allAddressable_nil
  | call name rest interfaceOnly => exact addressable_of_recogniseCall recognised
  | braced name rest interfaceOnly => exact addressable_of_recogniseMethod recognised
  | other => exact Recognised.addressable_of_ofLine recognised allAddressable_nil

end Context

/-! ### Entries of files -/

/-- Messages have no page of their own. -/
theorem MessageCall.addressable_of_read {line : List Char} {number : Nat}
    {reader later : Reader} {entry : Option Entry}
    (found : read line number reader = .ok (entry, later)) : AllAddressable entry.toList := by
  unfold read at found
  split at found
  · cases found
    exact allAddressable_nil
  · split at found
    · cases found
      exact allAddressable_nil
    · cases found
      exact allAddressable_nil
    · split at found
      · contradiction
      · cases found
        simp [AllAddressable, Entry.Addressable, Addressable, Declared.hasPage]

namespace LineOutcome

theorem addressable_ofBody (isHeader languageSeen : Bool) (context : Context) (indent : Nat)
    (body : List Char) (line : SourceLine) (reader : Reader) :
    AllAddressable (ofBody isHeader languageSeen context indent body line reader).entries := by
  simp only [ofBody]
  split
  · exact allAddressable_nil
  · split
    · next recognised =>
        exact Context.addressable_of_recognise (LineShape.addressable_ofLine ..) recognised
    · exact allAddressable_nil

/-- The entries of a line are those of the message that stands on it and those of the form of the
line. -/
theorem addressable_ofLine (isHeader languageSeen : Bool) (context : Context) (line : SourceLine)
    (reader : Reader) :
    AllAddressable (ofLine isHeader languageSeen context line reader).entries := by
  simp only [ofLine]
  split
  · exact allAddressable_nil
  · split
    · apply addressable_ofBody
    · split
      · exact allAddressable_nil
      · next read =>
          apply allAddressable_append (MessageCall.addressable_of_read read)
          apply addressable_ofBody

end LineOutcome

namespace FileOutcome

/-- Line by line, along the recursion through the lines of a file. -/
theorem addressable_ofLines (isHeader languageSeen : Bool) (context : Context) (reader : Reader) :
    AllAddressable (ofLines isHeader languageSeen context reader).entries := by
  fun_induction ofLines isHeader languageSeen context reader with
  | case1 => exact allAddressable_nil
  | case2 => exact allAddressable_nil
  | case3 _ _ _ _ _ _ _ _ _ _ ih =>
      apply allAddressable_append _ ih
      apply LineOutcome.addressable_ofLine
  | case4 => apply LineOutcome.addressable_ofLine
  | case5 => apply LineOutcome.addressable_ofLine

/-- Every class and every object of a file has a name that can stand in the address of a page. -/
theorem addressable_ofFile (isHeader languageSeen : Bool) (reader : Reader) :
    AllAddressable (ofFile isHeader languageSeen reader).entries :=
  addressable_ofLines isHeader languageSeen .start reader

end FileOutcome

end TadsReference
