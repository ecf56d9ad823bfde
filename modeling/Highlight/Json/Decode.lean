/-
**Values of a given shape from JSON.**

A decoder is a reader that knows how many brackets it may still open, so the nesting of a value is
bounded. Records are read field by field in the order in which they are written:

* `Decode.record`: a record is written with its field names or as a list of its fields; a field that
  is not known is skipped, one that is written twice is refused;
* `Decode.fromBytes`: a whole document, behind which only blanks may follow.
-/

import Highlight.Json.Reader

namespace Highlight.Json

namespace Decode

/-- Number of brackets a document may nest. -/
def maxDepth : Nat := 127

/-- A string. -/
def string : Reader String := do
  match ← Reader.peekValue with
  | none => throw .ended
  | some 34 => Reader.advance; Reader.text
  | some _ => Reader.unexpected

/-- A whole number in the range of sizes. -/
def size : Reader Nat := do
  let number ← (do
    match ← Reader.peekValue with
    | none => throw .ended
    | some 45 => Reader.advance; Reader.number true
    | some byte => if (Reader.digit? byte).isSome then Reader.number false else Reader.unexpected)
  match number with
  | .natural value => return value
  | .other => throw .shape

/-- A truth value. -/
def bool : Reader Bool := do
  match ← Reader.peekValue with
  | none => throw .ended
  | some 116 => Reader.advance; Reader.keyword "rue".toList; return true
  | some 102 => Reader.advance; Reader.keyword "alse".toList; return false
  | some _ => Reader.unexpected

/-- A value or `null`. -/
def optional {α : Type} (value : Reader α) : Reader (Option α) := do
  match ← Reader.peekValue with
  | some 110 => Reader.advance; Reader.keyword "ull".toList; return none
  | _ => return some (← value)

/-- Opens a bracket, if another one may be opened. -/
def openBracket : Nat → Reader Nat
  | 0 => throw .malformed
  | depth + 1 => do Reader.advance; return depth

/-- Whether another element of a list follows, and moves to it. -/
def hasElement (first : Bool) : Reader Bool := do
  match ← Reader.peekValue with
  | none => throw .ended
  | some 93 => return false
  | some byte =>
    if first then return true
    else if byte == 44 then
      Reader.advance
      match ← Reader.peekValue with
      | some 93 => throw .malformed
      | some _ => return true
      | none => throw .ended
    else throw .malformed

/-- Takes the bracket that closes a list or record. -/
def close (closing : UInt8) : Reader Unit := do
  match ← Reader.peekValue with
  | some byte => if byte == closing then Reader.advance else throw .malformed
  | none => throw .ended

/-- A list; `element` is told how many brackets it may open. -/
def list {α : Type} (depth : Nat) (element : Reader α) : Reader (List α) := do
  match ← Reader.peekValue with
  | none => throw .ended
  | some 91 =>
    let _ ← openBracket depth
    let rec go : Nat → Bool → Array α → Reader (Array α)
      | 0, _, _ => throw .ended
      | fuel + 1, first, out => do
        if ← hasElement first then go fuel false (out.push (← element)) else return out
    let out ← go ((← Reader.remaining) + 1) true #[]
    close 93
    return out.toList
  | some _ => Reader.unexpected

/-- Whether another field of a record follows, and moves behind the quote of its name. -/
def hasField (first : Bool) : Reader Bool := do
  match ← Reader.peekValue with
  | none => throw .ended
  | some 125 => return false
  | some byte =>
    if first then
      if byte == 34 then Reader.advance; return true
      else throw .malformed
    else if byte == 44 then
      Reader.advance
      match ← Reader.peekValue with
      | some 34 => Reader.advance; return true
      | some _ => throw .malformed
      | none => throw .ended
    else throw .malformed

/-- Takes the colon behind the name of a field. -/
def colon : Reader Unit := do
  match ← Reader.peekValue with
  | some 58 => Reader.advance
  | some _ => throw .malformed
  | none => throw .ended

/-- Reads the fields of what is written between braces and folds them into a value. -/
def fields {σ : Type} (depth : Nat) (field : String → σ → Reader σ) (initial : σ) : Reader σ := do
  let _ ← openBracket depth
  let rec go : Nat → Bool → σ → Reader σ
    | 0, _, _ => throw .ended
    | fuel + 1, first, state => do
      if ← hasField first then
        let name ← Reader.text
        colon
        go fuel false (← field name state)
      else return state
  let state ← go ((← Reader.remaining) + 1) true initial
  close 125
  return state

/-- A table from names to values, in byte order of the names; of two values for a name the last one
stays. -/
def table {α : Type} (depth : Nat) (value : Reader α) : Reader (List (String × α)) := do
  match ← Reader.peekValue with
  | none => throw .ended
  | some 123 =>
    let entries ← fields depth (fun name out => do return out.push (name, ← value)) #[]
    return entries.toList.foldl (fun out entry => insertEntry entry out) []
  | some _ => Reader.unexpected
where
  /-- Puts an entry at its place in an ordered list of entries. -/
  insertEntry (entry : String × α) : List (String × α) → List (String × α)
    | [] => [entry]
    | head :: rest =>
      if entry.1 = head.1 then entry :: rest
      else if entry.1 < head.1 then entry :: head :: rest
      else head :: insertEntry entry rest

/-- One field of a record: its name and how its value changes the record. -/
structure Field (σ : Type) where
  name : String
  required : Bool
  value : σ → Reader σ

/-- The field of that name, with its place. -/
def findField {σ : Type} (name : String) : List (Field σ) → Nat → Option (Nat × Field σ)
  | [], _ => none
  | field :: rest, place =>
    if field.name = name then some (place, field) else findField name rest (place + 1)

/-- Whether every required field is among the places given. -/
def allRequired {σ : Type} (seen : List Nat) : List (Field σ) → Nat → Bool
  | [], _ => true
  | field :: rest, place =>
    (!field.required || seen.contains place) && allRequired seen rest (place + 1)

/-- The fields of a record that is written as a list, as far as the list goes. -/
def fieldsInOrder {σ : Type} : List (Field σ) → Bool → σ → Reader σ
  | [], _, state => return state
  | field :: rest, first, state => do
    if ← hasElement first then
      let state ← field.value state
      fieldsInOrder rest false state
    else if (field :: rest).any (·.required) then throw .shape
    else return state

/-- A record with the given fields, which start from the values of `initial`. -/
def record {σ : Type} (depth : Nat) (known : List (Field σ)) (initial : σ) : Reader σ := do
  match ← Reader.peekValue with
  | none => throw .ended
  | some 91 =>
    let _ ← openBracket depth
    let state ← fieldsInOrder known true initial
    close 93
    return state
  | some 123 =>
    let _ ← openBracket depth
    let rec go : Nat → Bool → List Nat → σ → Reader (List Nat × σ)
      | 0, _, _, _ => throw .ended
      | fuel + 1, first, seen, state => do
        if ← hasField first then
          let name ← Reader.text
          match findField name known 0 with
          | some (place, field) =>
            if seen.contains place then throw .shape
            colon
            let state ← field.value state
            go fuel false (place :: seen) state
          | none =>
            colon
            Reader.skip
            go fuel false seen state
        else return (seen, state)
    let (seen, state) ← go ((← Reader.remaining) + 1) true [] initial
    if !allRequired seen known 0 then throw .shape
    close 125
    return state
  | some _ => Reader.unexpected

/-- A whole document. -/
def fromBytes {α : Type} (value : Reader α) (bytes : ByteArray) : Except Error α :=
  let document : Reader α := do
    let result ← value
    match ← Reader.peekValue with
    | some _ => throw .malformed
    | none => return result
  ((document.run bytes).run 0).map (·.1)

end Decode

end Highlight.Json
