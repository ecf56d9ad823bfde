/-
**The small words of a regex: numbers, escapes, names and intervals.**

Each function takes its word from the front of the characters and returns what is left:

* `escapedCode`: the character behind a backslash that stands for a character, with the control and
  meta forms;
* `groupName`: the name or number of a group, up to its closing character;
* `interval`: the bounds of a repetition between braces, or nothing where the brace is literal;
* `propertyName`: the name of a property up to its closing brace.
-/

import Highlight.Regex.Cause
import Highlight.Regex.CharSet
import Highlight.Regex.Syntax

namespace Highlight.Regex

/-- The characters that are left. -/
abbrev Input := List Char

/-- Value of a digit in bases up to sixteen. -/
def digitValue? (char : Char) : Option Nat :=
  if '0' ≤ char ∧ char ≤ '9' then some (char.toNat - 48)
  else if 'a' ≤ char ∧ char ≤ 'f' then some (char.toNat - 87)
  else if 'A' ≤ char ∧ char ≤ 'F' then some (char.toNat - 55)
  else none

/-- Takes at most `most` digits of a base: their value, their number and what is left. -/
def takeDigits (base : Nat) : (most : Nat) → Input → (value count : Nat) → Nat × Nat × Input
  | 0, input, value, count => (value, count, input)
  | _, [], value, count => (value, count, [])
  | most + 1, char :: rest, value, count =>
    match digitValue? char with
    | some digit =>
      if digit < base then takeDigits base most rest (value * base + digit) (count + 1)
      else (value, count, char :: rest)
    | none => (value, count, char :: rest)

/-- Largest number that may be written. -/
def maxNumber : Nat := 0x7FFFFFFF

/-- Takes a decimal number: its value, the number of its digits and what is left. -/
def takeDecimal (input : Input) : Nat × Nat × Input := takeDigits 10 input.length input 0 0

/-- The character a letter behind a backslash stands for. -/
def letterCode : Char → Nat
  | 'n' => 10
  | 't' => 9
  | 'r' => 13
  | 'f' => 12
  | 'a' => 7
  | 'b' => 8
  | 'e' => 27
  | 'v' => 11
  | char => char.toNat

/-- The character of an escape, from behind its backslash. -/
def escapedCode : Input → Except Cause (Nat × Input)
  | [] => throw .endAtEscape
  | 'M' :: rest => do
    match rest with
    | [] => throw .endAtMeta
    | '-' :: [] => throw .endAtMeta
    | '-' :: '\\' :: rest =>
      let (code, rest) ← escapedCode rest
      return ((code &&& 0xff) ||| 0x80, rest)
    | '-' :: char :: rest => return ((char.toNat &&& 0xff) ||| 0x80, rest)
    | _ => throw .metaCode
  | 'C' :: rest => do
    match rest with
    | [] => throw .endAtControl
    | '-' :: [] => throw .endAtControl
    | '-' :: '?' :: rest => return (127, rest)
    | '-' :: '\\' :: rest =>
      let (code, rest) ← escapedCode rest
      return (code &&& 0x9f, rest)
    | '-' :: char :: rest => return (char.toNat &&& 0x9f, rest)
    | _ => throw .controlCode
  | 'c' :: rest => do
    match rest with
    | [] => throw .endAtControl
    | '?' :: rest => return (127, rest)
    | '\\' :: rest =>
      let (code, rest) ← escapedCode rest
      return (code &&& 0x9f, rest)
    | char :: rest => return (char.toNat &&& 0x9f, rest)
  | char :: rest => return (letterCode char, rest)

/-- A character written by its number: as a code point, as a byte, or not at all. -/
inductive Numbered where
  | code (code : Nat)
  | byte (byte : Nat)
  /-- The letter stands for itself. -/
  | letter

/-- Takes a code point between braces, from behind the opening one. -/
def bracedCode (base : Nat) (most : Nat) (input : Input) : Except Cause (Option (Nat × Input)) := do
  let (value, count, rest) := takeDigits base most input 0 0
  if value > 0xffffffff then throw .codeTooLong
  if count = most then
    match rest.head?.bind digitValue? with
    | some digit => if digit < base then throw .codeTooLong
    | none => pure ()
  match rest with
  | '}' :: rest => if count = 0 then return none else return some (value, rest)
  | _ => return none

/-- The character of an `x`, `o`, `u` or octal escape, from behind the letter or first digit. -/
def numbered (letter : Char) (input : Input) : Except Cause (Numbered × Input) := do
  match letter, input with
  | _, [] => if letter.isDigit then return (.byte (letter.toNat - 48), []) else return (.letter, [])
  | 'x', '{' :: rest =>
    match ← bracedCode 16 8 rest with
    | some (code, rest) => return (.code code, rest)
    | none => return (.letter, input)
  | 'x', _ =>
    let (value, _, rest) := takeDigits 16 2 input 0 0
    return (.byte value, rest)
  | 'o', '{' :: rest =>
    match ← bracedCode 8 11 rest with
    | some (code, rest) => return (.code code, rest)
    | none => return (.letter, input)
  | 'u', _ =>
    let (value, count, rest) := takeDigits 16 4 input 0 0
    if count < 4 then throw .codeInvalid
    return (.code value, rest)
  | _, _ => return (.letter, input)

/-- The character of an octal escape, from its first digit on. -/
def octalByte (most : Nat) (input : Input) : Except Cause (Nat × Input) := do
  let (value, _, rest) := takeDigits 8 most input 0 0
  if value > 0xff then throw .numberTooBig
  return (value, rest)

/-- Whether a character may stand in the name of a group. -/
def isNameChar (char : Char) : Bool := Property.isWord char.toNat

/-- What names a group: a name, a number, or a number counted from here. -/
inductive GroupRef where
  | name (name : String)
  | number (number : Nat)
  | relative (offset : Int)

/-- Takes the characters up to the one that closes a name or a parenthesis, with that one. -/
def spanName (closing : Char) : Input → Input × Option Char × Input
  | [] => ([], none, [])
  | char :: rest =>
    if char = closing ∨ char = ')' then ([], some char, rest)
    else
      let (name, found, left) := spanName closing rest
      (char :: name, found, left)

/-- The first character of a name that may not be in it. -/
def badNameChar? (name : Input) : Bool := name.any fun char => !isNameChar char

/-- Takes the name of a group up to its closing character; a number only where the group is referred
to. -/
def groupName (closing : Char) (isReference : Bool) (input : Input) :
    Except Cause (GroupRef × Input) := do
  let (name, found, rest) := spanName closing input
  let shown := String.ofList name
  let closed := found = some closing
  match input with
  | [] => throw .emptyName
  | first :: more =>
    if first = closing then throw .emptyName
    else if first.isDigit ∨ first = '-' ∨ first = '+' then
      if ¬ isReference then
        if first = '+' then throw (.nameChar shown) else throw (.invalidName shown)
      let digits := if first.isDigit then name else name.drop 1
      match digits.find? fun char => !char.isDigit with
      | some char =>
        if isNameChar char then throw (.invalidName shown) else throw (.nameChar shown)
      | none => pure ()
      if digits.isEmpty ∨ ¬ closed then
        throw (.invalidName (if closed then shown else String.ofList (first :: more)))
      let (value, _, _) := takeDecimal digits
      if value > maxNumber then throw .numberTooBig
      if first.isDigit then return (.number value, rest)
      if value = 0 then throw (.invalidName shown)
      return (.relative (if first = '-' then -(value : Int) else value), rest)
    else if badNameChar? name ∨ name.isEmpty then throw (.nameChar shown)
    else if ¬ closed then throw (.invalidName (String.ofList (first :: more)))
    else return (.name shown, rest)

/-- Largest bound of a repetition. -/
def maxRepeat : Nat := 100000

/-- Takes the bounds of a repetition from behind the opening brace, with whether it is a fixed
number of times; nothing where the brace stands for itself. -/
def interval (input : Input) : Except Cause (Option (Quantifier × Bool × Input)) := do
  let (low, lowDigits, rest) := takeDecimal input
  if low > maxRepeat then throw .repeatTooBig
  match rest with
  | ',' :: rest =>
    let (high, highDigits, rest) := takeDecimal rest
    if high > maxRepeat then throw .repeatTooBig
    if lowDigits = 0 ∧ highDigits = 0 then return none
    match rest with
    | '}' :: rest =>
      if highDigits = 0 then return some (⟨low, none, true, false⟩, false, rest)
      else if high < low then return some (⟨high, some low, true, true⟩, false, rest)
      else return some (⟨low, some high, true, false⟩, false, rest)
    | _ => return none
  | '}' :: rest =>
    if lowDigits = 0 then return none
    return some (⟨low, some low, true, false⟩, true, rest)
  | _ => return none

/-- Takes a quantifier, if there is one. -/
def quantifier (input : Input) : Except Cause (Option (Quantifier × Input)) := do
  let simple (low : Nat) (high : Option Nat) (rest : Input) : Quantifier × Input :=
    match rest with
    | '?' :: rest => (⟨low, high, false, false⟩, rest)
    | '+' :: rest => (⟨low, high, true, true⟩, rest)
    | _ => (⟨low, high, true, false⟩, rest)
  match input with
  | '*' :: rest => return some (simple 0 none rest)
  | '+' :: rest => return some (simple 1 none rest)
  | '?' :: rest => return some (simple 0 (some 1) rest)
  | '{' :: rest =>
    match ← interval rest with
    | none => return none
    | some (found, isFixed, rest) =>
      match rest with
      | '?' :: after =>
        if isFixed ∨ found.possessive then return some (found, rest)
        else return some ({ found with greedy := false }, after)
      | _ => return some (found, rest)
  | _ => return none

/-- Takes the name of a property up to its closing brace. -/
def propertyName (input : Input) : Except Cause (Property × Input) := do
  let isEnd (char : Char) : Bool :=
    char == '}' || char == '(' || char == ')' || char == '{' || char == '|'
  let name := input.takeWhile fun char => !isEnd char
  match input.drop name.length with
  | '}' :: rest =>
    match Property.ofName? (String.ofList name) with
    | some found => return (found, rest)
    | none => throw (.propertyName (String.ofList name))
  | [] => throw (.propertyName (String.ofList name.dropLast))
  | _ => throw (.propertyName (String.ofList name))

end Highlight.Regex
