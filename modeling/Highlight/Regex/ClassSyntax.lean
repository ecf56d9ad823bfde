/-
**Character classes as they are written.**

A class lists characters, ranges, properties and further classes between brackets; `&&` intersects
what stands on its two sides and a caret in front complements the whole. Reading goes from left to
right with one open item: the last character may turn out to begin a range.

* `ClassSyntax.read`: the class from behind its opening bracket;
* `rawChar`: a character that is written byte by byte.
-/

import Highlight.Regex.Escape

namespace Highlight.Regex

/-- Number of bytes of the character that a byte begins. -/
def leadLength (byte : Nat) : Nat :=
  if byte < 0xC2 then 1 else if byte < 0xE0 then 2 else if byte < 0xF0 then 3
  else if byte < 0xF5 then 4 else 1

/-- Takes an escape that stands for a byte. -/
def byteEscape? : Input → Option (Nat × Input)
  | '\\' :: 'x' :: '{' :: _ => none
  | '\\' :: 'x' :: rest =>
    let (value, _, rest) := takeDigits 16 2 rest 0 0
    some (value, rest)
  | '\\' :: char :: rest =>
    if '0' ≤ char ∧ char ≤ '3' then
      let (value, _, rest) := takeDigits 8 3 (char :: rest) 0 0
      some (value, rest)
    else none
  | _ => none

/-- Takes as many byte escapes as a character still lacks. -/
def continuationBytes : Nat → Input → List Nat → Except Cause (List Nat × Input)
  | 0, input, bytes => return (bytes, input)
  | count + 1, input, bytes =>
    match byteEscape? input with
    | some (byte, rest) => continuationBytes count rest (bytes ++ [byte])
    | none => throw .charTooShort

/-- The character that begins with a byte, of which further bytes are to follow as escapes. -/
def rawChar (first : Nat) (input : Input) : Except Cause (Nat × Input) := do
  let (bytes, rest) ← continuationBytes (leadLength first - 1) input [first]
  match String.fromUTF8? ⟨(bytes.map fun byte => UInt8.ofNat byte).toArray⟩ with
  | some string =>
    match string.toList with
    | [char] => return (char.toNat, rest)
    | _ => throw .charInvalid
  | none => throw .charInvalid

/-- Largest code point that can be asked for. -/
def maxCode : Nat := 0x1fffff

/-- The options that change what parts of a regex mean. -/
structure Options where
  ignoreCase : Bool
  /-- Blanks and comments are skipped. -/
  extended : Bool
  /-- The dot matches line feeds too. -/
  dotAll : Bool
  wordAscii : Bool
  digitAscii : Bool
  spaceAscii : Bool
  posixAscii : Bool
  deriving Repr

namespace Options

/-- No option set. -/
def none : Options := ⟨false, false, false, false, false, false, false⟩

/-- The set a lower case property letter stands for. -/
def letterSet (options : Options) : Char → CharSet
  | 'w' => .property .word (options.wordAscii || options.posixAscii)
  | 'd' => .property .digit (options.digitAscii || options.posixAscii)
  | 's' => .property .space (options.spaceAscii || options.posixAscii)
  | _ => .property .xdigit false

/-- The set a property letter stands for; upper case letters stand for the complements. -/
def letterSet? (options : Options) (letter : Char) : Option CharSet :=
  match letter with
  | 'w' | 'd' | 's' | 'h' => some (options.letterSet letter)
  | 'W' | 'D' | 'S' | 'H' => some (.complement (options.letterSet letter.toLower))
  | _ => Option.none

end Options

/-- The set of a named property, from behind its opening brace; a caret complements it. -/
def propertySet (options : Options) (negated : Bool) (input : Input) :
    Except Cause (CharSet × Input) := do
  let (negated, input) := match input with
    | '^' :: rest => (!negated, rest)
    | _ => (negated, input)
  let (found, rest) ← propertyName input
  let set := CharSet.property found options.posixAscii
  return (if negated then .complement set else set, rest)

namespace ClassSyntax

/-- What is open while a class is read. -/
inductive Pending where
  /-- Nothing yet. -/
  | start
  /-- A character, which may begin a range. -/
  | char (code : Nat)
  /-- A property. -/
  | property
  /-- A range that lacks its end. -/
  | range (low : Nat)
  /-- A range or an inner class that is complete. -/
  | complete

/-- A class that is being read. -/
structure Open where
  negated : Bool
  /-- What stands left of the last `&&`. -/
  left : Option CharSet
  set : CharSet
  pending : Pending

/-- A class without items so far. -/
def Open.empty (negated : Bool) : Open := ⟨negated, none, .none, .start⟩

/-- Adds what is pending. -/
def Open.flush (current : Open) : Open :=
  match current.pending with
  | .char code => { current with set := .union current.set (.range code code) }
  | _ => current

/-- Adds a character, which ends a range if one is open. -/
def Open.addChar (current : Open) (code : Nat) : Except Cause Open := do
  if code > maxCode then throw .codeTooBig
  match current.pending with
  | .range low =>
    if low > code then throw .emptyRange
    return { current with set := .union current.set (.range low code), pending := .complete }
  | _ => return { current.flush with pending := .char code }

/-- Adds the characters of a property. -/
def Open.addProperty (current : Open) (set : CharSet) : Except Cause Open := do
  if let .range _ := current.pending then throw .classAtRangeEnd
  let current := current.flush
  return { current with set := .union current.set set, pending := .property }

/-- Adds a class that is complete. -/
def Open.addClass (current : Open) (set : CharSet) : Open :=
  let current := current.flush
  { current with set := .union current.set set, pending := .complete }

/-- Closes what stands between two `&&`. -/
def Open.merged (current : Open) : CharSet :=
  let current := current.flush
  match current.left with
  | some left => .inter left current.set
  | none => current.set

/-- Begins what stands right of an `&&`. -/
def Open.intersect (current : Open) : Open :=
  ⟨current.negated, some current.merged, .none, .start⟩

/-- The set of a class that is complete, without its complement if the class is the outermost. -/
def Open.close (current : Open) : CharSet :=
  if current.negated then .complement current.merged else current.merged

/-- The names of the bracketed properties. -/
def posixNames : List String :=
  ["alnum", "alpha", "blank", "cntrl", "digit", "graph", "lower", "print", "punct", "space",
   "upper", "xdigit", "ascii", "word"]

/-- Whether a bracketed property may begin here: its end has to come before another bracket. -/
def hasPosixEnd : Input → Bool
  | ':' :: ']' :: _ => true
  | ']' :: _ => false
  | '\\' :: _ :: rest => hasPosixEnd rest
  | _ :: rest => hasPosixEnd rest
  | [] => false

/-- A bracketed property, from behind its opening bracket and colon; nothing if it is not one. -/
def posix (options : Options) (input : Input) : Except Cause (Option (CharSet × Input)) := do
  let (negated, body) := match input with
    | '^' :: rest => (true, rest)
    | _ => (false, input)
  let known := posixNames.find? fun name => name.toList.isPrefixOf body
  match if body.length < 7 then none else known with
  | some name =>
    match body.drop name.length with
    | ':' :: ']' :: rest =>
      match Property.ofName? name with
      | some found =>
        let asciiOnly := options.posixAscii ||
          (name == "digit" && options.digitAscii) || (name == "space" && options.spaceAscii) ||
          (name == "word" && options.wordAscii)
        let set := CharSet.property found asciiOnly
        return some (if negated then .complement set else set, rest)
      | none => throw .posixBracket
    | _ => throw .posixBracket
  | none =>
    let skipped := (body.take 21).takeWhile fun char => char != ':' && char != ']'
    match body.drop skipped.length with
    | ':' :: ']' :: _ => throw .posixBracket
    | _ => return none

/-- Whether a class or what stands left of an `&&` ends here. -/
def endsHere : Input → Bool
  | ']' :: _ => true
  | '&' :: '&' :: _ => true
  | _ => false

/-- Takes the caret and the bracket that may stand first in a class. -/
def opening (input : Input) : Except Cause (Open × Input) := do
  let (negated, rest) := match input with
    | '^' :: rest => (true, rest)
    | _ => (false, input)
  match rest with
  | ']' :: rest =>
    if ¬ rest.contains ']' then throw .emptyClass
    return (← (Open.empty negated).addChar 93, rest)
  | _ => return (Open.empty negated, rest)

/-- An item of a class behind a backslash. -/
def escape (options : Options) (current : Open) : Input → Except Cause (Open × Input)
  | [] => throw .endAtEscape
  | letter :: rest => do
    match options.letterSet? letter with
    | some set => return (← current.addProperty set, rest)
    | none =>
      match letter, rest with
      | 'p', '{' :: more | 'P', '{' :: more =>
        let (set, rest) ← propertySet options (letter == 'P') more
        return (← current.addProperty set, rest)
      | _, _ =>
        if '0' ≤ letter ∧ letter ≤ '7' then
          let (byte, rest) ← octalByte 3 (letter :: rest)
          addByte byte rest
        else if letter = 'x' ∨ letter = 'o' ∨ letter = 'u' then
          match ← numbered letter rest with
          | (.code code, rest) => return (← current.addChar code, rest)
          | (.byte byte, rest) => addByte byte rest
          | (.letter, rest) => return (← current.addChar letter.toNat, rest)
        else
          let (code, rest) ← escapedCode (letter :: rest)
          return (← current.addChar code, rest)
where
  /-- Adds the character that begins with a byte. -/
  addByte (byte : Nat) (rest : Input) : Except Cause (Open × Input) := do
    if byte < 0x80 then return (← current.addChar byte, rest)
    let (code, rest) ← rawChar byte rest
    return (← current.addChar code, rest)

/-- Reads the items of a class and of the classes it stands in. -/
def items (options : Options) : Nat → Open → List Open → Input →
    Except Cause (Bool × CharSet × Input)
  | _, _, _, [] => throw .endInClass
  | 0, _, _, _ => throw .endInClass
  | fuel + 1, current, outer, char :: rest => do
    match char, rest with
    | ']', _ =>
      match outer with
      | [] => return (current.negated, current.merged, rest)
      | parent :: outer => items options fuel (parent.addClass current.close) outer rest
    | '-', _ =>
      match current.pending with
      | .char code =>
        if endsHere rest then items options fuel (← current.addChar 45) outer rest
        else items options fuel { current with pending := .range code } outer rest
      | .property =>
        if endsHere rest then items options fuel (← current.addChar 45) outer rest
        else throw .classAtRangeStart
      | _ => items options fuel (← current.addChar 45) outer rest
    | '[', _ =>
      let isPosix := rest.head? == some ':' && hasPosixEnd (rest.drop 1)
      if isPosix then
        match ← posix options (rest.drop 1) with
        | some (set, rest) => items options fuel (← current.addProperty set) outer rest
        | none => items options fuel (← current.addChar 91) outer rest
      else
        if outer.length > 4000 then throw .tooDeep
        let (inner, rest) ← opening rest
        items options fuel inner (current :: outer) rest
    | '&', '&' :: rest => items options fuel current.intersect outer rest
    | '\\', _ =>
      let (current, rest) ← escape options current rest
      items options fuel current outer rest
    | _, _ => items options fuel (← current.addChar char.toNat) outer rest

/-- Reads a class from behind its opening bracket. -/
def read (options : Options) (input : Input) : Except Cause (CharSet × Input) := do
  let (current, rest) ← opening input
  let (negated, set, rest) ← items options (input.length + 1) current [] rest
  let set := if options.ignoreCase then .folded set else set
  return (if negated then .complement set else set, rest)

end ClassSyntax

end Highlight.Regex
