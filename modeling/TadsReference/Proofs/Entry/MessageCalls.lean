import TadsReference.Proofs.Entry.FunctionBodies
import TadsReference.Proofs.Text.SpacedTokens

/-!
# Calls on a line

Of all calls on a line that define messages, only the first is recorded. If it has a name and is
closed on the line, no other line is taken for it, and the line is classified as if it were not
searched for calls: `ofLine_of_calls`.
-/

namespace TadsReference

namespace MessageCall

/-- A call with what stands behind it on its line. -/
structure Call where
  kind : MessageKind
  /-- What stands between the word and its parenthesis. -/
  gap : List Char
  name : List Char
  text : List Char
  behind : List Char

namespace Call

/-- What stands on the line from the call's name on. -/
def argument (call : Call) : List Char :=
  call.name ++ ',' :: (call.text ++ ')' :: call.behind)

/-- A call as it stands on its line, with all that is behind it. -/
def spelled (call : Call) : List Char :=
  call.kind.callName.toList ++ (call.gap ++ '(' :: call.argument)

/-- A call has a name that is not blank, and the first parenthesis behind the name closes it. -/
structure Complete (call : Call) : Prop where
  isGap : ∀ character ∈ call.gap, Text.isBlank character = true
  named : ∃ character ∈ call.name, Text.isBlank character = false
  bare : ∀ character ∈ call.name, character ≠ ',' ∧ character ≠ ')'
  closed : ')' ∉ call.text

/-- The message that a call defines. Its text goes on to the end of the line. -/
def message (number : ℕ) (call : Call) : Entry :=
  MessageCall.message call.kind (Token.all call.name) number
    (Text.trim (call.text ++ ')' :: call.behind))

end Call

/-- All calls on a line, in their order. A call begins wherever its word does not continue another
one. `previous` is the character before the line. -/
inductive Calls : Option Char → List Char → List Call → Prop
  | done (previous : Option Char) : Calls previous [] []
  | skip {previous : Option Char} {character : Char} {rest : List Char} {calls : List Call}
      (noCall : previous.any Text.isWordCharacter = false →
        ¬∃ kind : MessageKind, kind.Opens (character :: rest))
      (others : Calls (some character) rest calls) : Calls previous (character :: rest) calls
  | call {previous : Option Char} {character : Char} {rest : List Char} {call : Call}
      {calls : List Call} (apart : previous.any Text.isWordCharacter = false)
      (complete : call.Complete) (spelled : call.spelled = character :: rest)
      (others : Calls (some character) rest calls) :
      Calls previous (character :: rest) (call :: calls)

variable {previous : Option Char} {text rest : List Char} {call : Call} {calls : List Call}
  {token : String} {number : ℕ} {reader : Reader}

/-- The calls on a line stand behind a part of it in which no call begins. -/
theorem Calls.append (before : List Char)
    (noCall : ∀ place < before.length, opening? ((before ++ rest).drop place) = none)
    (found : Calls (before.getLast?.or previous) rest calls) :
    Calls previous (before ++ rest) calls := by
  induction before generalizing previous with
  | nil => exact found
  | cons character before ih =>
      have here : opening? (character :: (before ++ rest)) = none := noCall 0 (Nat.zero_lt_succ _)
      have last : (character :: before).getLast?.or previous =
          before.getLast?.or (some character) := by
        rw [List.getLast?_cons]
        cases before.getLast? <;> rfl
      rw [last] at found
      refine .skip (fun _ opens => ?_) (ih (fun place isPlace => ?_) found)
      · exact Option.not_isSome_iff_eq_none.mpr here (isSome_opening?_iff.mpr opens)
      · exact noCall (place + 1) (Nat.succ_lt_succ isPlace)

/-! ### The first call -/

theorem opening?_eq_none (noCall : ¬∃ kind : MessageKind, kind.Opens text) :
    opening? text = none := by
  rwa [← Option.not_isSome_iff_eq_none, isSome_opening?_iff]

/-- A complete call is found where it is spelled, with the text behind its parenthesis. -/
theorem opening?_spelled (complete : call.Complete) :
    opening? call.spelled = some (call.kind, call.argument) := by
  have starts : call.kind.callName.toList.isPrefixOf call.spelled = true :=
    List.isPrefixOf_iff_prefix.mpr (List.prefix_append _ _)
  have behind : Text.trimStart (call.spelled.drop call.kind.callName.length) =
      '(' :: call.argument := by
    rw [Call.spelled, ← String.length_toList, List.drop_left, Text.trimStart_append complete.isGap]
    rfl
  rw [opening?, List.findSome?_eq_some_iff]
  cases isKind : call.kind with
  | basic =>
      rw [isKind] at starts behind
      refine ⟨[], .basic, [.default], rfl, by simp only [if_pos starts, behind], ?_⟩
      exact List.forall_mem_nil _
  | default =>
      have noOther : ¬MessageKind.basic.callName.toList.isPrefixOf call.spelled = true := by
        simp [Call.spelled, isKind, MessageKind.callName]
      rw [isKind] at starts behind
      refine ⟨[.basic], .default, [], rfl, by simp only [if_pos starts, behind], ?_⟩
      exact List.forall_mem_singleton.mpr (if_neg noOther)

theorem complete_of_calls (found : Calls previous text calls) :
    ∀ call ∈ calls, call.Complete := by
  induction found with
  | done => nofun
  | skip _ _ ih => exact ih
  | call _ complete _ _ ih => exact List.forall_mem_cons.mpr ⟨complete, ih⟩

/-- The search finds the first call. -/
theorem find?_of_calls (found : Calls previous text calls) :
    find? previous text = calls.head?.map fun call => (call.kind, call.argument) := by
  induction found with
  | done => rfl
  | skip noCall _ ih =>
      rw [find?, ih]
      split_ifs with continues
      · rfl
      · rw [opening?_eq_none (noCall (Bool.eq_false_iff.mpr continues))]
        rfl
  | call apart complete spelled =>
      rw [find?, apart, ← spelled, opening?_spelled complete]
      rfl

/-! ### Names -/

theorem nameTokens?_of_next? (first : Token.next? text = some (token, rest)) :
    nameTokens? text =
      if token == "," then some ([], rest)
      else if token == ")" then none
      else (nameTokens? rest).map fun found => (token :: found.1, found.2) := by
  rw [nameTokens?]
  split
  · simp_all
  · next found =>
      obtain ⟨rfl, rfl⟩ := Prod.mk.inj (Option.some.inj (first.symm.trans found))
      rfl

/-- The name of a call goes up to its first comma. A token of the name is neither of the two that
end it, since its characters are the name's. -/
theorem nameTokens?_append (bare : ∀ character ∈ text, character ≠ ',' ∧ character ≠ ')')
    (after : List Char) : nameTokens? (text ++ ',' :: after) = some (Token.all text, after) := by
  fun_induction Token.all text with
  | case1 text ended =>
      have first : Token.next? (text ++ ',' :: after) = some (",", after) := by
        rw [Token.next?_append (Token.next?_eq_none_iff.mp ended), Token.next?_comma]
      rw [nameTokens?_of_next? first]
      rfl
  | case2 text token rest first ih =>
      have apart : ∀ character ∈ (',' :: after).head?, Token.Separates character := by
        simpa using Token.separates_comma
      have within : token.toList ++ rest ⊆ text := Token.subset_of_next? first
      have noComma : token ≠ "," := by
        rintro rfl
        exact (bare ',' (within (by simp))).1 rfl
      have noParenthesis : token ≠ ")" := by
        rintro rfl
        exact (bare ')' (within (by simp))).2 rfl
      have bareRest : ∀ character ∈ rest, character ≠ ',' ∧ character ≠ ')' :=
        fun character isPart => bare character (within (List.mem_append_right _ isPart))
      rw [nameTokens?_of_next? (Token.next?_append_of_separates first apart), ih bareRest]
      simp [noComma, noParenthesis]

/-! ### Messages of lines -/

/-- The text of a call that is closed is read without another line. -/
theorem gather_of_closed (text behind : List Char) (reader : Reader) :
    reader.gather continueOn (start (text ++ ')' :: behind)) =
      .ok (Text.trim (text ++ ')' :: behind), reader) := by
  rw [start, if_pos (by simp), Reader.gather]

/-- A name that is not blank has a token. -/
theorem Call.Complete.tokens (complete : call.Complete) : Token.all call.name ≠ [] := by
  intro none
  obtain ⟨character, isPart, visible⟩ := complete.named
  cases first : Token.next? call.name with
  | none =>
      rw [Token.next?_eq_none_iff.mp first character isPart] at visible
      contradiction
  | some found =>
      rw [Token.all_of_next? first] at none
      contradiction

/-- The message of a line is that of its first call. It is closed on the line, so no other line is
read for it. -/
theorem read_of_calls (found : Calls none text calls) :
    read text number reader = .ok (calls.head?.map (·.message number), reader) := by
  rw [read_eq_bind, find?_of_calls found]
  cases calls with
  | nil => rfl
  | cons call calls =>
      have complete := complete_of_calls found call List.mem_cons_self
      obtain ⟨first, others, isName⟩ := List.exists_cons_of_ne_nil complete.tokens
      simp only [List.head?_cons, Option.map_some, Call.argument]
      rw [nameTokens?_append complete.bare, isName]
      simp only [gather_of_closed, Call.message, isName]
      rfl

end MessageCall

/-! ### Outcomes of lines -/

namespace Entry

/-- Whether an entry defines a message. -/
def isMessage : Entry → Bool
  | .declaration _ _ _ (.message _ _) => true
  | _ => false

end Entry

namespace LineOutcome

/-- How a line outside headers is classified if it is not searched for calls. -/
def unsearched (languageSeen : Bool) (context : Context) (line : SourceLine) (reader : Reader) :
    LineOutcome :=
  if (Text.trimEnd line.shown).isEmpty then quiet languageSeen context reader
  else ofBody false languageSeen context line.indent line.body line reader

variable {languageSeen : Bool} {context : Context} {line : SourceLine} {reader : Reader}
  {message : Option Entry} {calls : List MessageCall.Call}

/-- A line that is not searched for calls defines no message. No form of a line stands for a
message, and the search for calls is the only other thing that could declare one. -/
theorem isMessage_of_unsearched :
    ∀ entry ∈ (unsearched languageSeen context line reader).entries, entry.isMessage = false := by
  have noMessage : ∀ (form : LineForm) name declared, form.MayDeclare name declared →
      ∀ kind text, declared ≠ .message kind text := by
    rintro form name declared may kind text rfl
    cases may
  intro entry isEntry
  unfold unsearched at isEntry
  split at isEntry
  · contradiction
  · have declares := declares_ofBody noMessage entry isEntry
    cases entry with
    | declaration name description number declared =>
        cases declared with
        | message kind text => exact absurd rfl (declares kind text)
        | _ => rfl
    | _ => rfl

/-- The message of a line comes in front of what else the line declares. -/
theorem ofLine_of_read
    (read : MessageCall.read line.body line.number reader = .ok (message, reader)) :
    ofLine false languageSeen context line reader =
      { unsearched languageSeen context line reader with
        entries := message.toList ++ (unsearched languageSeen context line reader).entries } := by
  cases isEmpty : (Text.trimEnd line.shown).isEmpty with
  | true =>
      have noBody : line.body = [] := by
        simp [SourceLine.body, List.isEmpty_iff.mp isEmpty]
      rw [noBody] at read
      cases read
      simp only [ofLine, unsearched, isEmpty, if_true]
      rfl
  | false =>
      unfold SourceLine.body at read
      simp only [ofLine, unsearched, isEmpty, Bool.false_eq_true, if_false, read]
      rfl

/-- The message of the first call comes in front of what the line would declare without a search for
calls. -/
theorem classified_of_calls (found : MessageCall.Calls none line.body calls) :
    ofLine false languageSeen context line reader =
      { unsearched languageSeen context line reader with
        entries := (calls.take 1).map (·.message line.number) ++
          (unsearched languageSeen context line reader).entries } := by
  have first : (calls.head?.map (·.message line.number)).toList =
      (calls.take 1).map (·.message line.number) := by
    cases calls <;> rfl
  rw [ofLine_of_read (MessageCall.read_of_calls found), first]

/-- No message comes from elsewhere, so the messages of a line are at most one. -/
theorem messages_of_calls (found : MessageCall.Calls none line.body calls) :
    (ofLine false languageSeen context line reader).entries.filter Entry.isMessage =
      (calls.take 1).map (·.message line.number) := by
  have areMessages :
      ∀ entry ∈ (calls.take 1).map (·.message line.number), entry.isMessage = true := by
    rw [List.forall_mem_map]
    exact fun _ _ => rfl
  have noOthers :
      (unsearched languageSeen context line reader).entries.filter Entry.isMessage = [] := by
    simpa [List.filter_eq_nil_iff] using isMessage_of_unsearched
  rw [classified_of_calls found, List.filter_append, noOthers, List.append_nil,
    List.filter_eq_self.mpr areMessages]

/-- Of all calls on a line, only the first is recorded, with its kind and its name. No other line is
taken for it, and else the line is classified as if it were not searched for calls. There is a
message for each call only if there is at most one. -/
theorem ofLine_of_calls (found : MessageCall.Calls none line.body calls) (languageSeen : Bool)
    (context : Context) (reader : Reader) :
    let outcome := ofLine false languageSeen context line reader
    let unsearched := unsearched languageSeen context line reader
    let recorded := (calls.take 1).map (·.message line.number)
    outcome = { unsearched with entries := recorded ++ unsearched.entries } ∧
      outcome.entries.filter Entry.isMessage = recorded ∧
      ((outcome.entries.filter Entry.isMessage).length = calls.length ↔ calls.length ≤ 1) := by
  refine ⟨classified_of_calls found, messages_of_calls found, ?_⟩
  rw [messages_of_calls found, List.length_map, List.length_take]
  omega

/-- A line with two calls. -/
def lampLine : SourceLine where
  number := 1
  text := "    desc = BMsg(lit, 'on') + DMsg(unlit, 'off');".toList
  mirror := none

/-- The two calls on the line, each with what stands behind it. -/
def lampCalls : List MessageCall.Call :=
  [⟨.basic, [], "lit".toList, " 'on'".toList, " + DMsg(unlit, 'off');".toList⟩,
    ⟨.default, [], "unlit".toList, " 'off'".toList, [';']⟩]

/-- The line has these two calls and no other one. -/
theorem calls_lampLine : MessageCall.Calls none lampLine.body lampCalls := by
  have lit : (lampCalls.head (by decide)).Complete :=
    ⟨nofun, ⟨'l', by decide, by decide⟩, by simp [lampCalls], by simp [lampCalls]⟩
  have unlit : (lampCalls.getLast (by decide)).Complete :=
    ⟨nofun, ⟨'u', by decide, by decide⟩, by simp [lampCalls], by simp [lampCalls]⟩
  have spelled : lampLine.body = "desc = ".toList ++ 'B' :: ("Msg(lit, 'on') + ".toList ++
      'D' :: ("Msg(unlit, 'off');".toList ++ [])) := by
    decide +kernel
  rw [spelled]
  refine .append _ (by decide +kernel) (.call (by decide +kernel) lit rfl ?_)
  refine .append _ (by decide +kernel) (.call (by decide +kernel) unlit rfl ?_)
  exact .append _ (by decide +kernel) (.done _)

/-- Of the two calls, the first is recorded, and its text goes on to the end of the line. -/
theorem ofLine_lampLine :
    MessageCall.Calls none lampLine.body lampCalls ∧
      (ofLine false false .start lampLine (.ofContent "lamp.t" [] none none)).entries =
        [.declaration "lit" "" 1 (.message .basic "'on') + DMsg(unlit, 'off');")] := by
  refine ⟨calls_lampLine, ?_⟩
  rw [(ofLine_of_calls calls_lampLine false .start _).1]
  decide +kernel

/-- The second call is lost. -/
theorem not_all_recorded_lampLine :
    MessageCall.Calls none lampLine.body lampCalls ∧
      ((ofLine false false .start lampLine (.ofContent "lamp.t" [] none none)).entries.filter
        Entry.isMessage).length ≠ lampCalls.length := by
  refine ⟨calls_lampLine, ?_⟩
  rw [messages_of_calls calls_lampLine, List.length_map, List.length_take]
  decide

end LineOutcome

end TadsReference
