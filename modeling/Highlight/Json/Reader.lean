/-
**Reading JSON from left to right.**

A `Reader` takes a value from a position of some bytes and says where it ends. It stops at the first
thing that is wrong, and there are three ways to be wrong (`Json.Error`): the bytes end too early,
they are not JSON, or they are JSON that does not have the shape asked for.

* `Reader.text`: a string literal, with its escapes resolved;
* `Reader.number`: a number, of which only whole numbers from zero on are sizes;
* `Reader.skip`: any value, of whatever depth, which is checked only for being JSON;
* `Reader.unexpected`: the error for a value of another kind than the one asked for. A scalar is
  read to its end first, so one that is not even JSON is reported as such.
-/

import Highlight.Error

namespace Highlight.Json

/-- A step that takes a value from the bytes at a position and moves behind it. -/
abbrev Reader (α : Type) := ReaderT ByteArray (StateT Nat (Except Error)) α

namespace Reader

/-- Bytes from the position on. -/
def remaining : Reader Nat := do return (← read).size - (← get)

/-- The byte at the position. -/
def peek : Reader (Option UInt8) := do
  let bytes ← read
  let position ← get
  if h : position < bytes.size then return some bytes[position] else return none

/-- Moves on by one byte. -/
def advance : Reader Unit := modify (· + 1)

/-- Takes the byte at the position; there has to be one. -/
def take : Reader UInt8 := do
  match ← peek with
  | some byte => advance; return byte
  | none => throw .ended

/-- Whether a byte may stand between the parts of a value. -/
def isBlank (byte : UInt8) : Bool := byte == 32 || byte == 10 || byte == 9 || byte == 13

/-- Moves behind the blanks at the position. -/
def skipBlanks : Reader Unit := do
  let bytes ← read
  let rec go : Nat → Nat → Nat
    | 0, position => position
    | fuel + 1, position =>
      if h : position < bytes.size then
        if isBlank bytes[position] then go fuel (position + 1) else position
      else position
  modify fun position => go (bytes.size - position) position

/-- The byte behind the blanks at the position. -/
def peekValue : Reader (Option UInt8) := do
  skipBlanks
  peek

/-- Takes the rest of a keyword. -/
def keyword : List Char → Reader Unit
  | [] => return ()
  | char :: rest => do
    if (← take).toNat ≠ char.toNat then throw .malformed
    keyword rest

/-! ### Strings -/

/-- Value of a hexadecimal digit. -/
def hexDigit? (byte : UInt8) : Option Nat :=
  if 48 ≤ byte ∧ byte ≤ 57 then some (byte.toNat - 48)
  else if 97 ≤ byte ∧ byte ≤ 102 then some (byte.toNat - 87)
  else if 65 ≤ byte ∧ byte ≤ 70 then some (byte.toNat - 55)
  else none

/-- Takes four hexadecimal digits. -/
def hexUnit : Reader Nat := do
  if (← remaining) < 4 then throw .ended
  let digits := [hexDigit? (← take), hexDigit? (← take), hexDigit? (← take), hexDigit? (← take)]
  match digits with
  | [some a, some b, some c, some d] => return ((a * 16 + b) * 16 + c) * 16 + d
  | _ => throw .malformed

/-- The byte a one-letter escape stands for. -/
def escaped? (byte : UInt8) : Option UInt8 :=
  match Char.ofNat byte.toNat with
  | '"' => some 34
  | '\\' => some 92
  | '/' => some 47
  | 'b' => some 8
  | 'f' => some 12
  | 'n' => some 10
  | 'r' => some 13
  | 't' => some 9
  | _ => none

/-- The byte that comes next has to be `byte`; the bytes must not end here. -/
def expectByte (byte : UInt8) : Reader Unit := do
  if (← take) ≠ byte then throw .malformed

/-- Takes the character of a `u` escape, which may be a pair of surrogates. -/
def unicodeEscape : Reader Char := do
  let unit ← hexUnit
  if 0xDC00 ≤ unit ∧ unit ≤ 0xDFFF then throw .malformed
  if unit < 0xD800 ∨ 0xDBFF < unit then return Char.ofNat unit
  expectByte 92
  expectByte 117
  let low ← hexUnit
  if low < 0xDC00 ∨ 0xDFFF < low then throw .malformed
  return Char.ofNat (0x10000 + (unit - 0xD800) * 0x400 + (low - 0xDC00))

/-- Takes a string literal from behind its opening quote. -/
def text : Reader String := do
  let rec go : Nat → ByteArray → Reader String
    | 0, _ => throw .ended
    | fuel + 1, out => do
      match ← take with
      | 34 =>
        match String.fromUTF8? out with
        | some string => return string
        | none => throw .malformed
      | 92 =>
        match ← take with
        | 117 => go fuel (out ++ (String.singleton (← unicodeEscape)).toUTF8)
        | byte =>
          match escaped? byte with
          | some escaped => go fuel (out.push escaped)
          | none => throw .malformed
      | byte => if byte < 32 then throw .malformed else go fuel (out.push byte)
  go ((← remaining) + 1) ByteArray.empty

/-- Moves behind a string literal without looking at the characters it stands for. -/
def skipText : Reader Unit := do
  let rec go : Nat → Reader Unit
    | 0 => throw .ended
    | fuel + 1 => do
      match ← take with
      | 34 => return ()
      | 92 =>
        match ← take with
        | 117 => let _ ← hexUnit; go fuel
        | byte => if (escaped? byte).isSome then go fuel else throw .malformed
      | byte => if byte < 32 then throw .malformed else go fuel
  go ((← remaining) + 1)

/-! ### Numbers -/

/-- Value of a decimal digit. -/
def digit? (byte : UInt8) : Option Nat :=
  if 48 ≤ byte ∧ byte ≤ 57 then some (byte.toNat - 48) else none

/-- Takes digits, with their number, and appends them to a value. -/
def digits (value : Nat) : Reader (Nat × Nat) := do
  let rec go : Nat → Nat → Nat → Reader (Nat × Nat)
    | 0, value, count => return (value, count)
    | fuel + 1, value, count => do
      match (← peek).bind digit? with
      | some digit => advance; go fuel (value * 10 + digit) (count + 1)
      | none => return (value, count)
  go (← remaining) value 0

/-- A number as it is read: a whole number from zero on, or any other. -/
inductive Number where
  | natural (value : Nat)
  | other

/-- Smallest number that no longer rounds to a finite number of 64 bits. -/
def floatBound : Nat := 1 <<< 1024 - 1 <<< 970

/-- Takes an exponent from behind its letter; `mantissa · 10 ^ scale` is what it multiplies. -/
def exponent (mantissa : Nat) (scale : Int) : Reader Number := do
  let negative := (← peek) == some 45
  if negative || (← peek) == some 43 then advance
  let first ← take
  let some first := digit? first | throw .malformed
  let (value, _) ← digits first
  if negative || mantissa == 0 then return .other
  let power : Int := scale + value
  if power > 5000 then throw .malformed
  if power ≥ 0 && mantissa * Nat.pow 10 power.toNat ≥ floatBound then throw .malformed
  return .other

/-- Takes what may follow the digits of a whole number, of which there are `value`. -/
def fraction (negative : Bool) (value : Nat) : Reader Number := do
  match ← peek with
  | some 46 =>
    advance
    let (mantissa, count) ← digits value
    if count == 0 then
      if (← peek).isNone then throw .ended else throw .malformed
    match ← peek with
    | some 101 | some 69 => advance; exponent mantissa (-(count : Int))
    | _ =>
      if value ≥ floatBound then throw .malformed
      return .other
  | some 101 | some 69 => advance; exponent value 0
  | _ =>
    if value ≥ floatBound then throw .malformed
    if negative || value > maxSize then return .other
    return .natural value

/-- Takes a number from behind its sign. -/
def number (negative : Bool) : Reader Number := do
  match digit? (← take) with
  | some 0 =>
    if ((← peek).bind digit?).isSome then throw .malformed
    fraction negative 0
  | some first =>
    let (value, _) ← digits first
    fraction negative value
  | none => throw .malformed

/-- Moves behind a number without its sign, whatever its value. -/
def skipNumber : Reader Unit := do
  let first := ((← peek).bind digit?)
  advance
  match first with
  | some 0 => if ((← peek).bind digit?).isSome then throw .malformed
  | some _ => let _ ← digits 0
  | none => throw .malformed
  if (← peek) == some 46 then
    advance
    if (← digits 0).2 == 0 then throw .malformed
  if (← peek) == some 101 || (← peek) == some 69 then
    advance
    if (← peek) == some 43 || (← peek) == some 45 then advance
    if (← digits 0).2 == 0 then throw .malformed

/-! ### Any value -/

/-- The kinds of brackets that values are nested in. -/
inductive Bracket where
  | list
  | record
  deriving DecidableEq

/-- The byte that closes a bracket. -/
def Bracket.closing : Bracket → UInt8
  | .list => 93
  | .record => 125

/-- Takes a key and its colon, inside of a record. -/
def skipKey : Reader Unit := do
  match ← peekValue with
  | some 34 => advance
  | some _ => throw .malformed
  | none => throw .ended
  skipText
  match ← peekValue with
  | some 58 => advance
  | some _ => throw .malformed
  | none => throw .ended

/-- Moves behind the brackets that close, with the brackets that stay open. A value of one of them
is to follow, unless none is left. -/
def skipClosing : Nat → List Bracket → (afterValue : Bool) → Reader (List Bracket)
  | _, [], _ => return []
  | 0, _, _ => throw .ended
  | fuel + 1, bracket :: outer, afterValue => do
    match ← peekValue with
    | none => throw .ended
    | some byte =>
      if byte == bracket.closing then
        advance
        skipClosing fuel outer true
      else if afterValue then
        if byte == 44 then
          advance
          return bracket :: outer
        else throw .malformed
      else return bracket :: outer

/-- Moves behind a value, of which only the form is looked at. -/
def skip : Reader Unit := do
  let rec go : Nat → List Bracket → Reader Unit
    | 0, _ => throw .ended
    | fuel + 1, open_ => do
      let opened ← (do
        match ← peekValue with
        | none => throw .ended
        | some 110 => advance; keyword "ull".toList; return none
        | some 116 => advance; keyword "rue".toList; return none
        | some 102 => advance; keyword "alse".toList; return none
        | some 45 => advance; skipNumber; return none
        | some 34 => advance; skipText; return none
        | some 91 => advance; return some Bracket.list
        | some 123 => advance; return some Bracket.record
        | some byte =>
          if (digit? byte).isSome then
            skipNumber
            return none
          else throw .malformed : Reader (Option Bracket))
      let next ← match opened with
        | some bracket => skipClosing (fuel + 1) (bracket :: open_) false
        | none => skipClosing (fuel + 1) open_ true
      match next with
      | [] => return ()
      | .list :: _ => go fuel next
      | .record :: _ => skipKey; go fuel next
  go ((← remaining) + 1) []

/-- Refuses the value at the position for being of another kind than the one asked for. -/
def unexpected {α : Type} : Reader α := do
  match ← peek with
  | some 110 => advance; keyword "ull".toList; throw .shape
  | some 116 => advance; keyword "rue".toList; throw .shape
  | some 102 => advance; keyword "alse".toList; throw .shape
  | some 45 => advance; let _ ← number true; throw .shape
  | some 34 => advance; let _ ← text; throw .shape
  | some 91 => throw .shape
  | some 123 => throw .shape
  | some byte =>
    if (digit? byte).isSome then
      let _ ← number false
      throw .shape
    else throw .malformed
  | none => throw .malformed

end Reader

end Highlight.Json
