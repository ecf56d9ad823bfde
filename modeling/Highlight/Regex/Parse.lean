/-
**From the characters of a regex to its tree.**

The characters are read from left to right, a word at a time, while the groups that are still open
wait on a stack (`Frame`). An option without a colon opens a group that ends where the group around
it does, so such an option also covers the alternatives that follow.

* `Parse.step`: reads one word;
* `parse`: the tree of a regex with what is known of its groups.
-/

import Highlight.Regex.ClassSyntax

namespace Highlight.Regex

namespace Parse

/-- What an open group will be once it is closed. -/
inductive FrameKind where
  | whole
  | plain
  | capture (number : Nat) (named : Bool)
  | scope
  /-- The rest of the group around it, under other options. -/
  | rest
  | atomic
  | look (behind negated : Bool)
  | absent
  /-- The condition of a choice. -/
  | condition
  /-- The two sides of a choice. -/
  | choice (condition : Tree)

/-- A group that is open: its complete alternatives and the items of the current one, both latest
first, and the options to go back to. -/
structure Frame where
  kind : FrameKind
  branches : List Tree
  items : List Tree
  saved : Options

/-- What is known of the part that has been read. -/
structure State where
  options : Options
  /-- Innermost first. -/
  frames : List Frame
  /-- Number of groups that capture. -/
  groups : Nat
  /-- Numbers of the groups of each name, latest first. -/
  names : List (String × List Nat)
  namedGroups : Nat
  hasCalls : Bool
  /-- Whether unnamed groups capture even where there are named ones. -/
  captureAll : Bool
  /-- Whether unnamed groups capture nothing. -/
  dontCapture : Bool
  longest : Bool
  /-- Whether an option that holds for the whole regex was set. -/
  wholeOption : Bool

/-- Depth of groups that may be open. -/
def maxFrames : Nat := 2048

/-- Nothing read yet. -/
def State.initial (captureAll : Bool) : State :=
  ⟨.none, [⟨.whole, [], [], .none⟩], 0, [], 0, false, captureAll, false, false, false⟩

/-- Adds an item to the current alternative. -/
def State.add (state : State) (item : Tree) : State :=
  match state.frames with
  | [] => state
  | frame :: outer => { state with frames := { frame with items := item :: frame.items } :: outer }

/-- Opens a group. -/
def State.push (state : State) (kind : FrameKind) (options : Options) : Except Cause State := do
  if state.frames.length ≥ maxFrames then throw .tooDeep
  return { state with
    frames := ⟨kind, [], [], state.options⟩ :: state.frames, options := options }

/-- Ends the current alternative. -/
def Frame.endBranch (frame : Frame) : Frame :=
  { frame with branches := Tree.ofItems frame.items.reverse :: frame.branches, items := [] }

/-- What a group holds. -/
def Frame.body (frame : Frame) : Tree := Tree.ofBranches frame.endBranch.branches.reverse

/-- Closes the groups, of the innermost `count`, that only carry options to the end of the group
around them. -/
def State.closeRests (state : State) : (count : Nat) → State
  | 0 => state
  | count + 1 =>
    match state.frames with
    | frame :: outer =>
      match frame.kind with
      | .rest =>
        ({ state with frames := outer, options := frame.saved }.add
          (.scope frame.body)).closeRests count
      | _ => state
    | [] => state

/-- The two sides of a choice. -/
def choiceOf (condition : Tree) (frame : Frame) : Tree :=
  match frame.endBranch.branches.reverse with
  | [] => .branch condition .empty .empty
  | [yes] => .branch condition yes .empty
  | yes :: no => .branch condition yes (Tree.ofBranches no)

/-- Closes the innermost group, from behind its closing parenthesis. -/
def State.close (state : State) (rest : Input) : Except Cause (State × Input) := do
  let state := state.closeRests state.frames.length
  match state.frames with
  | [] => throw .unmatchedClose
  | frame :: outer =>
    let state := { state with frames := outer, options := frame.saved }
    match frame.kind with
    | .whole => throw .unmatchedClose
    | .plain => return (state.add frame.body, rest)
    | .capture number named => return (state.add (.group number named frame.body), rest)
    | .scope => return (state.add (.scope frame.body), rest)
    | .rest => return (state, rest)
    | .atomic => return (state.add (.atomic frame.body), rest)
    | .look behind negated => return (state.add (.look behind negated frame.body), rest)
    | .absent => return (state.add (.absent frame.body), rest)
    | .choice condition => return (state.add (choiceOf condition frame), rest)
    | .condition =>
      match rest with
      | [] => throw .endInGroup
      | ')' :: _ => throw .condition
      | _ => return (← state.push (.choice frame.body) state.options, rest)

/-- A group number counted from the next group. -/
def State.absolute (state : State) (offset : Int) : Int :=
  if offset > 0 then state.groups + offset else state.groups + 1 + offset

/-- The groups that a reference means, and whether it means them by name. -/
def State.resolve (state : State) (reference : GroupRef) : Except Cause (List Nat × Bool) := do
  match reference with
  | .number number => if number = 0 then throw .backReference else return ([number], false)
  | .relative offset =>
    let number := state.absolute offset
    if number ≤ 0 then throw .backReference else return ([number.toNat], false)
  | .name name =>
    match state.names.find? fun entry => entry.1 == name with
    | some (_, numbers) => return (numbers, true)
    | none => throw (.undefinedName name)

/-- Adds a group number to a name. -/
def addName (name : String) (number : Nat) : List (String × List Nat) → List (String × List Nat)
  | [] => [(name, [number])]
  | entry :: rest =>
    if entry.1 = name then (name, number :: entry.2) :: rest
    else entry :: addName name number rest

/-- Largest number of groups. -/
def maxGroups : Nat := 32767

/-- Opens a group that captures. -/
def State.pushCapture (state : State) (name : Option String) : Except Cause State := do
  if state.groups ≥ maxGroups then throw .tooManyGroups
  let number := state.groups + 1
  let state := { state with groups := number }
  match name with
  | none => state.push (.capture number false) state.options
  | some name =>
    let state := { state with
      names := addName name number state.names, namedGroups := state.namedGroups + 1 }
    state.push (.capture number true) state.options

/-- Notes an option that holds for the whole regex, which has to stand at its front. -/
def State.setWhole (state : State) (letter : Char) : Except Cause State := do
  if state.wholeOption then throw .wholeOption
  match state.frames with
  | [⟨.whole, [], [], _⟩] => pure ()
  | _ => throw .wholeOption
  let state := { state with wholeOption := true }
  if letter = 'C' then
    if state.captureAll then throw .optionCombination
    return { state with dontCapture := true }
  else if letter = 'L' then return { state with longest := true }
  else return state

/-- Takes the letters of options up to the colon or parenthesis behind them, which opens a group. -/
def optionLetters : Nat → State → Options → (off : Bool) → (whole : Option Char) → Input →
    Except Cause (State × Input)
  | _, _, _, _, _, [] => throw .endInGroup
  | 0, _, _, _, _, _ => throw .endInGroup
  | fuel + 1, state, options, off, whole, char :: rest => do
    let set (options : Options) := optionLetters fuel state options off whole rest
    match char with
    | ')' => (← mark state whole).push .rest options >>= fun state => return (state, rest)
    | ':' => (← mark state whole).push .scope options >>= fun state => return (state, rest)
    | '-' => optionLetters fuel state options true whole rest
    | 'x' => set { options with extended := !off }
    | 'i' => set { options with ignoreCase := !off }
    | 'm' => set { options with dotAll := !off }
    | 'W' => set { options with wordAscii := !off }
    | 'D' => set { options with digitAscii := !off }
    | 'S' => set { options with spaceAscii := !off }
    | 'P' => set { options with posixAscii := !off }
    | 'y' =>
      if off then throw .groupOption
      match rest with
      | '{' :: 'g' :: '}' :: rest | '{' :: 'w' :: '}' :: rest =>
        optionLetters fuel state options off whole rest
      | [] => throw .endInGroup
      | _ => throw .groupOption
    | 'C' | 'I' | 'L' =>
      if off then throw .wholeOption
      optionLetters fuel state options off (some char) rest
    | _ => throw .groupOption
where
  /-- Notes the option that holds for the whole regex, if there is one. -/
  mark (state : State) : Option Char → Except Cause State
    | some letter => state.setWhole letter
    | none => return state

/-- Opens a choice, from behind the parenthesis of its condition. -/
def openChoice (state : State) (input : Input) : Except Cause (State × Input) := do
  let afterCheck (groups : List Nat) (byName : Bool) (rest : Input) :
      Except Cause (State × Input) := do
    let condition := Tree.captured groups byName
    match rest with
    | [] => throw .endInGroup
    | ')' :: rest => return (state.add condition, rest)
    | _ => return (← state.push (.choice condition) state.options, rest)
  let anyCondition : Except Cause (State × Input) :=
    return (← state.push .condition state.options, input)
  match input with
  | [] => throw .endInGroup
  | [_] => throw .endInGroup
  | first :: rest =>
    if first = '<' ∨ first = '\'' then
      let closing := if first = '<' then '>' else '\''
      let (reference, rest) ← groupName closing true rest
      let (groups, byName) ← state.resolve reference
      match rest with
      | ')' :: rest => afterCheck groups byName rest
      | [] => throw .endInGroup
      | _ => throw .condition
    else if first.isDigit ∨ first = '-' ∨ first = '+' then
      match groupName ')' true input with
      | .error _ => anyCondition
      | .ok (reference, rest) =>
        let (groups, byName) ← state.resolve reference
        afterCheck groups byName rest
    else anyCondition

/-- Moves behind a comment; an escaped parenthesis does not end it. -/
def skipComment : Input → Except Cause Input
  | [] => throw .endInGroup
  | ['\\'] => throw .endInGroup
  | '\\' :: _ :: rest => skipComment rest
  | ')' :: rest => return rest
  | _ :: rest => skipComment rest

/-- Opens a group, from behind its parenthesis. -/
def openGroup (state : State) (input : Input) : Except Cause (State × Input) := do
  let push (kind : FrameKind) (rest : Input) : Except Cause (State × Input) :=
    return (← state.push kind state.options, rest)
  let named (closing : Char) (input : Input) : Except Cause (State × Input) := do
    match ← groupName closing false input with
    | (.name name, rest) => return (← state.pushCapture (some name), rest)
    | _ => throw .groupOption
  match input with
  | [] => throw .unmatchedOpen
  | '*' :: _ => throw .calloutName
  | '?' :: rest =>
    match rest with
    | [] => throw .endInGroup
    | '#' :: rest => return (state, ← skipComment rest)
    | ':' :: rest => push .plain rest
    | '=' :: rest => push (.look false false) rest
    | '!' :: rest => push (.look false true) rest
    | '>' :: rest => push .atomic rest
    | '~' :: rest =>
      match rest with
      | [] => throw .endInGroup
      | '|' :: _ => throw .absentGroup
      | _ => push .absent rest
    | '\'' :: rest => named '\'' rest
    | '<' :: rest =>
      match rest with
      | [] => throw .unmatchedOpen
      | '=' :: rest => push (.look true false) rest
      | '!' :: rest => push (.look true true) rest
      | _ => named '>' rest
    | '(' :: rest => openChoice state rest
    | ')' :: _ => throw .groupOption
    | _ => optionLetters (rest.length + 1) state state.options false none rest
  | _ =>
    if state.dontCapture then push .plain input
    else return (← state.pushCapture none, input)

/-- What a letter behind a backslash stands for if it is no character. -/
def letterTree? (options : Options) (letter : Char) : Option Tree :=
  let asciiWords := options.wordAscii || options.posixAscii
  match options.letterSet? letter with
  | some set => some (.set set)
  | none =>
    match letter with
    | 'b' => some (.anchor (.wordBoundary asciiWords))
    | 'B' => some (.anchor (.noWordBoundary asciiWords))
    | 'y' => some (.anchor .segmentBoundary)
    | 'Y' => some (.anchor .noSegmentBoundary)
    | 'A' => some (.anchor .subjectStart)
    | 'z' => some (.anchor .subjectEnd)
    | 'Z' => some (.anchor .finalLineEnd)
    | 'G' => some (.anchor .searchStart)
    | 'K' => some .keep
    | 'N' => some (.any false)
    | 'O' => some (.any true)
    | 'X' => some .segment
    | 'R' =>
      some (.atomic (.alt [.seq [.char 13 false, .char 10 false],
        .set (.union (.range 10 13) (.union (.range 0x85 0x85) (.range 0x2028 0x2029)))]))
    | _ => none

/-- Adds the character that begins with a byte. -/
def State.addByte (state : State) (byte : Nat) (rest : Input) : Except Cause (State × Input) := do
  if byte < 0x80 then return (state.add (.char byte state.options.ignoreCase), rest)
  let (code, rest) ← rawChar byte rest
  return (state.add (.char code state.options.ignoreCase), rest)

/-- Adds a character that is given by its code point. -/
def State.addCode (state : State) (code : Nat) (rest : Input) : Except Cause (State × Input) := do
  if code > maxCode then throw .codeTooBig
  return (state.add (.char code state.options.ignoreCase), rest)

/-- Reads what a digit from one on stands for behind a backslash: a group if there may be one of
that number, or else a character. -/
def backReference (state : State) (first : Char) (rest : Input) :
    Except Cause (State × Input) := do
  let (number, _, after) := takeDecimal (first :: rest)
  if number ≤ 1000 ∧ (number ≤ state.groups ∨ number ≤ 9) then
    return (state.add (.backRef [number] false state.options.ignoreCase), after)
  else if first = '8' ∨ first = '9' then state.addCode first.toNat rest
  else
    let (byte, rest) ← octalByte 3 (first :: rest)
    state.addByte byte rest

/-- Reads an escape from behind its backslash. -/
def escape (state : State) : Input → Except Cause (State × Input)
  | [] => throw .endAtEscape
  | letter :: rest => do
    match letterTree? state.options letter with
    | some tree => return (state.add tree, rest)
    | none =>
      match letter, rest with
      | 'k', '<' :: more | 'k', '\'' :: more =>
        let (reference, rest) ← groupName (if rest.head? = some '<' then '>' else '\'') true more
        let (groups, byName) ← state.resolve reference
        return (state.add (.backRef groups byName state.options.ignoreCase), rest)
      | 'g', '<' :: more | 'g', '\'' :: more =>
        let (reference, rest) ← groupName (if rest.head? = some '<' then '>' else '\'') true more
        let callee ← match reference with
          | .name name => pure (Callee.name name)
          | .number number => pure (Callee.number number)
          | .relative offset =>
            let number := state.absolute offset
            if number < 0 then throw .backReference else pure (Callee.number number.toNat)
        return ({ state with hasCalls := true }.add (.call callee), rest)
      | 'p', '{' :: more | 'P', '{' :: more =>
        let (set, rest) ← propertySet state.options (letter == 'P') more
        return (state.add (.set set), rest)
      | _, _ =>
        if '1' ≤ letter ∧ letter ≤ '9' then backReference state letter rest
        else if letter = '0' then
          let (byte, rest) ← octalByte 2 rest
          state.addByte byte rest
        else if letter = 'x' ∨ letter = 'o' ∨ letter = 'u' then
          match ← numbered letter rest with
          | (.code code, rest) => state.addCode code rest
          | (.byte byte, rest) => state.addByte byte rest
          | (.letter, rest) => state.addCode letter.toNat rest
        else
          let (code, rest) ← escapedCode (letter :: rest)
          state.addCode code rest

/-- Whether blanks of this kind are skipped in an extended regex. -/
def isExtendedBlank (char : Char) : Bool :=
  char == ' ' || char == '\t' || char == '\n' || char == '\r' || char == '\x0c'

/-- Puts a quantifier on the last item. -/
def State.quantify (state : State) (quantifier : Quantifier) : Except Cause State := do
  match state.frames with
  | [] => throw .repeatNothing
  | frame :: outer =>
    match frame.items with
    | [] => throw .repeatNothing
    | item :: items =>
      if ¬ item.isRepeatable then throw .repeatInvalid
      let frame := { frame with items := item.quantified quantifier :: items }
      return { state with frames := frame :: outer }

/-- Reads one word. -/
def step (state : State) (char : Char) (rest : Input) : Except Cause (State × Input) := do
  match char with
  | '\\' => escape state rest
  | '(' => openGroup state rest
  | ')' => state.close rest
  | '[' =>
    let (set, rest) ← ClassSyntax.read state.options rest
    return (state.add (.set set), rest)
  | '.' => return (state.add (.any state.options.dotAll), rest)
  | '^' => return (state.add (.anchor .lineStart), rest)
  | '$' => return (state.add (.anchor .lineEnd), rest)
  | '|' =>
    match state.frames with
    | [] => return (state, rest)
    | frame :: outer => return ({ state with frames := frame.endBranch :: outer }, rest)
  | _ =>
    match ← quantifier (char :: rest) with
    | some (found, rest) => return (← state.quantify found, rest)
    | none =>
      if state.options.extended && char == '#' then
        return (state, (rest.dropWhile fun char => char != '\n').drop 1)
      else if state.options.extended && isExtendedBlank char then return (state, rest)
      else state.addCode char.toNat rest

/-- Reads words until none is left. -/
def steps : Nat → State → Input → Except Cause State
  | _, state, [] => return state
  | 0, state, _ => return state
  | fuel + 1, state, char :: rest => do
    let (state, rest) ← step state char rest
    steps fuel state rest

end Parse

/-- A regex that has been read, with what is known of its groups. -/
structure Parsed where
  tree : Tree
  groups : Nat
  /-- Numbers of the groups of each name, latest first. -/
  names : List (String × List Nat)
  namedGroups : Nat
  hasCalls : Bool
  captureAll : Bool
  longest : Bool

/-- Reads a regex. Unnamed groups beside named ones capture only if `captureAll` is set. -/
def parse (source : String) (captureAll : Bool) : Except Cause Parsed := do
  let input := source.toList
  let state ← Parse.steps (input.length + 1) (Parse.State.initial captureAll) input
  let state := state.closeRests state.frames.length
  match state.frames with
  | [frame] =>
    return ⟨frame.body, state.groups, state.names, state.namedGroups, state.hasCalls, captureAll,
      state.longest⟩
  | _ => throw .unmatchedOpen

end Highlight.Regex
