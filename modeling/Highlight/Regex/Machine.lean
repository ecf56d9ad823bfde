/-
**Matching a regex at a position.**

The machine keeps a list of tasks that are still to be done and a list of choices to come back to. A
task that fails takes up the latest choice; the tasks, the position and the captures of a choice are
those of the moment at which it was made, so nothing has to be undone.

* `Machine.advance`: does one task;
* `Machine.run`: does tasks until none is left, or until no choice is left;
* `Program.attempt`: the match of a regex that begins at a position, if there is one.

A group that captures holds two numbers, its start and its end; each is one more than a position and
zero while there is none.
-/

import Highlight.Regex.Match
import Highlight.Regex.Program

namespace Highlight.Regex

namespace Machine

/-- What a match is looked for in. -/
structure Subject where
  text : Text
  flags : SearchFlags
  /-- Where the search began. -/
  origin : Nat
  bodies : Array Node

mutual

/-- What is still to be done. -/
inductive Task where
  | node (node : Node)
  /-- Ends the capture of a group that was begun at a position. -/
  | close (group start : Nat)
  /-- Ends a turn of a loop that was begun at a position with some captures. -/
  | again (body : Node) (greedy : Bool) (check : EmptyCheck) (start : Nat) (before : Array Nat)
  /-- Ends one of the counted turns. -/
  | counted (body : Node) (low : Nat) (high : Option Nat) (greedy : Bool) (check : EmptyCheck)
      (turn start : Nat) (before : Array Nat)
  /-- Gives up the choices made in an atomic part. -/
  | commit (choices : List Choice)
  /-- Goes back behind a look-around that matched. -/
  | back (choices : List Choice) (position limit : Nat)
  /-- Fails because a negated look-around matched. -/
  | refuse (choices : List Choice)
  /-- Goes on with one side of a choice whose condition matched. -/
  | decide (choices : List Choice) (yes : Node)
  | endsAt (position : Nat)
  /-- Lengthens a text without an occurrence of a body. -/
  | grow (body : Node) (start : Nat)

/-- What can be come back to. -/
inductive Choice where
  | resume (tasks : List Task) (position : Nat) (captures : Array Nat) (keep limit : Nat)
  /-- A run of characters from `low` on that can be one character shorter. -/
  | shorten (low : Nat) (tasks : List Task) (position : Nat) (captures : Array Nat)
      (keep limit : Nat)

end

/-- A moment of a match. -/
structure State where
  tasks : List Task
  position : Nat
  captures : Array Nat
  /-- Where the match is said to begin. -/
  keep : Nat
  /-- Where the characters end that may be matched. -/
  limit : Nat
  choices : List Choice

/-! ### Characters of the subject -/

/-- The code point of the character at a position and the position behind it. -/
@[inline] def charAt (text : Text) (position : Nat) : Nat × Nat :=
  let first := text.byteAt position
  if first < 0xC2 then (first.toNat, position + 1)
  else
    let low (distance : Nat) : Nat := (text.byteAt (position + distance)).toNat % 64
    if first < 0xE0 then ((first.toNat % 32) * 64 + low 1, position + 2)
    else if first < 0xF0 then ((first.toNat % 16) * 4096 + low 1 * 64 + low 2, position + 3)
    else if first < 0xF5 then
      ((first.toNat % 8) * 262144 + low 1 * 4096 + low 2 * 64 + low 3, position + 4)
    else (first.toNat, position + 1)

/-- The start of the character that ends before a position behind `low`. -/
def previous (text : Text) (low position : Nat) : Nat :=
  let rec go : Nat → Nat → Option Nat
    | 0, _ => none
    | fuel + 1, position =>
      if position < low then none
      else if Text.isContinuation (text.byteAt position) then
        if position = 0 then none else go fuel (position - 1)
      else some position
  (go 4 (position - 1)).getD (position - 1)

/-- Whether the character at a position is part of a word. -/
def isWordAt (text : Text) (asciiOnly : Bool) (position : Nat) : Bool :=
  let code := (charAt text position).1
  if code < 128 then
    (48 ≤ code && code ≤ 57) || (65 ≤ code && code ≤ 90) || (97 ≤ code && code ≤ 122) || code == 95
  else !asciiOnly && Property.isWord code

/-- Whether words and what is between them meet at a position. -/
def isWordBoundary (text : Text) (asciiOnly : Bool) (position : Nat) : Bool :=
  let before := position != 0 && isWordAt text asciiOnly (previous text 0 position)
  let after := position < text.size && isWordAt text asciiOnly position
  before != after

/-- Whether a character belongs to the one before it. -/
def isExtending (code : Nat) : Bool :=
  code ≥ 128 && (Unicode.graphemeExtend.contains code || code == 0x200D ||
    Unicode.Category.of code == .spacingMark)

/-- Whether a character begins that does not belong to the one before it. -/
def isSegmentBoundary (text : Text) (position : Nat) : Bool :=
  if position = 0 ∨ text.size ≤ position then true
  else
    let code := (charAt text position).1
    let before := (charAt text (previous text 0 position)).1
    if before == 13 && code == 10 then false
    else if before == 13 || before == 10 then true
    else !isExtending code

/-- The end of the character at a position and of all that belongs to it. -/
def segmentEnd (text : Text) (limit position : Nat) : Nat :=
  let rec go : Nat → Nat → Nat
    | 0, position => position
    | fuel + 1, position =>
      if position < limit ∧ ¬ isSegmentBoundary text position then go fuel (charAt text position).2
      else position
  go (limit - position) (charAt text position).2

/-- Whether a character passes a test. -/
@[inline] def OneChar.holds (test : OneChar) (code : Nat) : Bool :=
  match test with
  | .set table => table.contains code
  | .any => true
  | .notLineFeed => code != 10

/-- The position behind the character at a position, if there is one that passes a test. -/
@[inline] def one? (text : Text) (test : OneChar) (position limit : Nat) : Option Nat :=
  if position < limit then
    let (code, next) := charAt text position
    if next ≤ limit ∧ OneChar.holds test code then some next else none
  else none

/-- The position behind all characters from a position on that pass a test. -/
def runEnd (text : Text) (test : OneChar) (limit position : Nat) : Nat :=
  let rec go : Nat → Nat → Nat
    | 0, position => position
    | fuel + 1, position =>
      match one? text test position limit with
      | some next => go fuel next
      | none => position
  go (limit - position) position

/-- Whether the bytes at a position are the given ones. -/
def matchesBytes (text : Text) (bytes : ByteArray) (position : Nat) : Bool :=
  let rec go : Nat → Nat → Bool
    | 0, _ => true
    | count + 1, offset =>
      if h : offset < bytes.size then
        text.byteAt (position + offset) == bytes[offset] && go count (offset + 1)
      else true
  go bytes.size 0

/-- The position behind an occurrence, at a position, of the bytes `[start, stop)` of the text. -/
def repeated? (text : Text) (start stop position limit : Nat) (ignoreCase : Bool) : Option Nat :=
  let length := stop - start
  if position + length > limit then none
  else if ignoreCase then
    let rec go : Nat → Nat → Nat → Option Nat
      | 0, _, position => some position
      | fuel + 1, from_, position =>
        if stop ≤ from_ then some position
        else if limit ≤ position then none
        else
          let (code, next) := charAt text from_
          let (other, after) := charAt text position
          if Unicode.Fold.simple code == Unicode.Fold.simple other then go fuel next after else none
    go (length + 1) start position
  else
    let rec same : Nat → Nat → Bool
      | 0, _ => true
      | count + 1, offset =>
        text.byteAt (start + offset) == text.byteAt (position + offset) && same count (offset + 1)
    if same length 0 then some (position + length) else none

/-- Whether a place that was asked for is at a position. -/
def isAt (subject : Subject) (position : Nat) : Anchor → Bool
  | .lineStart =>
    if position = 0 then !subject.flags.notLineStart
    else position < subject.text.size && subject.text.byteAt (position - 1) == Text.lineFeed
  | .lineEnd =>
    if position < subject.text.size then subject.text.byteAt position == Text.lineFeed
    else atEnd
  | .subjectStart => position == 0 && !subject.flags.notLineStart
  | .subjectEnd => position == subject.text.size && !subject.flags.notLineEnd
  | .finalLineEnd =>
    if position < subject.text.size then
      position + 1 == subject.text.size && subject.text.byteAt position == Text.lineFeed &&
        !subject.flags.notLineEnd
    else atEnd
  | .searchStart => position == subject.origin
  | .wordBoundary asciiOnly => isWordBoundary subject.text asciiOnly position
  | .noWordBoundary asciiOnly => !isWordBoundary subject.text asciiOnly position
  | .segmentBoundary => isSegmentBoundary subject.text position
  | .noSegmentBoundary => !isSegmentBoundary subject.text position
where
  /-- Whether the end of the subject ends a line. -/
  atEnd : Bool :=
    (position == 0 || subject.text.byteAt (position - 1) != Text.lineFeed) &&
      !subject.flags.notLineEnd

/-! ### Captures -/

/-- The start and the end of what a group captured. -/
def capture? (captures : Array Nat) (group : Nat) : Option (Nat × Nat) :=
  match captures.getD (2 * group) 0, captures.getD (2 * group + 1) 0 with
  | start + 1, stop + 1 => some (start, stop)
  | _, _ => none

/-- Whether a turn that began at a position with some captures ends a repetition. -/
def isEmptyTurn (check : EmptyCheck) (start position : Nat) (before captures : Array Nat) : Bool :=
  match check with
  | .none => false
  | .position => start == position
  | .captures groups =>
    start == position && groups.all fun group => capture? before group == capture? captures group

/-! ### Tasks -/

/-- What a task led to. -/
inductive Outcome where
  | next (state : State)
  /-- The latest of the choices is to be taken up. -/
  | fail (choices : List Choice)

/-- Positions at which what ends at `position` and has the given number of characters can begin,
nearest first. -/
def startsBefore (text : Text) (position low : Nat) (high : Option Nat) : List Nat :=
  let rec go : Nat → Nat → Nat → List Nat
    | 0, _, _ => []
    | fuel + 1, current, distance =>
      let here := if low ≤ distance then [current] else []
      if current = 0 ∨ high = some distance then here
      else here ++ go fuel (previous text 0 current) (distance + 1)
  go (position + 1) position 0

/-- Begins a turn of a loop. -/
def enterLoop (body : Node) (greedy : Bool) (check : EmptyCheck) (state : State) (rest : List Task) :
    State :=
  let turn := .node body :: .again body greedy check state.position state.captures :: rest
  if greedy then
    { state with
      tasks := turn
      choices := .resume rest state.position state.captures state.keep state.limit ::
        state.choices }
  else
    { state with
      tasks := rest
      choices := .resume turn state.position state.captures state.keep state.limit ::
        state.choices }

/-- Begins a counted turn, or ends the repetition, after `turn` of them. -/
def enterCount (body : Node) (low : Nat) (high : Option Nat) (greedy : Bool) (check : EmptyCheck)
    (turn : Nat) (state : State) (rest : List Task) : State :=
  let another :=
    .node body :: .counted body low high greedy check turn state.position state.captures :: rest
  if high.any (· ≤ turn) then { state with tasks := rest }
  else if turn < low then { state with tasks := another }
  else
    let (first, second) := if greedy then (another, rest) else (rest, another)
    { state with
      tasks := first
      choices := .resume second state.position state.captures state.keep state.limit ::
        state.choices }

/-- Does the task of matching a node. -/
def matchNode (subject : Subject) (node : Node) (state : State) (rest : List Task) : Outcome :=
  let fail := Outcome.fail state.choices
  let goOn (tasks : List Task) := Outcome.next { state with tasks := tasks }
  match node with
  | .empty => goOn rest
  | .fail => fail
  | .bytes bytes =>
    if state.position + bytes.size ≤ state.limit ∧ matchesBytes subject.text bytes state.position
    then .next { state with tasks := rest, position := state.position + bytes.size }
    else fail
  | .one test =>
    match one? subject.text test state.position state.limit with
    | some next => .next { state with tasks := rest, position := next }
    | none => fail
  | .run test =>
    let stop := runEnd subject.text test state.limit state.position
    if stop = state.position then goOn rest
    else .next { state with
      tasks := rest
      position := stop
      choices := .shorten state.position rest stop state.captures state.keep state.limit ::
        state.choices }
  | .anchor anchor => if isAt subject state.position anchor then goOn rest else fail
  | .seq first second => goOn (.node first :: .node second :: rest)
  | .alt first second =>
    .next { state with
      tasks := .node first :: rest
      choices := .resume (.node second :: rest) state.position state.captures state.keep
        state.limit :: state.choices }
  | .loop body greedy check atLeastOnce =>
    if atLeastOnce then
      goOn (.node body :: .again body greedy check state.position state.captures :: rest)
    else .next (enterLoop body greedy check state rest)
  | .count body low high greedy check => .next (enterCount body low high greedy check 0 state rest)
  | .group number body =>
    .next { state with
      tasks := .node body :: .close number state.position :: rest
      captures := state.captures.setIfInBounds (2 * number) (state.position + 1) }
  | .atomic body => goOn (.node body :: .commit state.choices :: rest)
  | .ahead false body =>
    goOn (.node body :: .back state.choices state.position state.limit :: rest)
  | .ahead true body =>
    .next { state with
      tasks := .node body :: [.refuse state.choices]
      choices := .resume rest state.position state.captures state.keep state.limit ::
        state.choices }
  | .behind negated low high body =>
    let after : Task := if negated then .refuse state.choices
      else .back state.choices state.position state.limit
    let isFixed := high == some low
    let limit := if isFixed then state.limit else state.position
    let tasks :=
      .node body :: if isFixed then after :: rest else .endsAt state.position :: after :: rest
    let starts := startsBefore subject.text state.position low high
    let choices := if negated then
        .resume rest state.position state.captures state.keep state.limit :: state.choices
      else state.choices
    .fail (starts.foldr (fun start choices =>
      .resume tasks start state.captures state.keep limit :: choices) choices)
  | .backRef groups ignoreCase =>
    match groups.findSome? (capture? state.captures) with
    | some (start, stop) =>
      match repeated? subject.text start stop state.position state.limit ignoreCase with
      | some next => .next { state with tasks := rest, position := next }
      | none => backRefs subject groups ignoreCase state rest
    | none => fail
  | .captured groups =>
    if groups.any fun group => (capture? state.captures group).isSome then goOn rest else fail
  | .branch condition yes no =>
    .next { state with
      tasks := .node condition :: .decide state.choices yes :: rest
      choices := .resume (.node no :: rest) state.position state.captures state.keep state.limit ::
        state.choices }
  | .call group =>
    let body := subject.bodies.getD group .fail
    goOn (.node (if group = 0 then body else .group group body) :: rest)
  | .keep => .next { state with tasks := rest, keep := state.position }
  | .absent body =>
    .next { state with
      tasks := .node body :: .endsAt state.position :: [.refuse state.choices]
      choices := .resume (.grow body state.position :: rest) state.position state.captures
        state.keep state.limit :: state.choices }
  | .segment =>
    if state.position < state.limit then
      .next { state with
        tasks := rest, position := segmentEnd subject.text state.limit state.position }
    else fail
where
  /-- The first of several groups whose text is at the position. -/
  backRefs (subject : Subject) (groups : List Nat) (ignoreCase : Bool) (state : State)
      (rest : List Task) : Outcome :=
    match groups.findSome? fun group => (capture? state.captures group).bind fun (start, stop) =>
        repeated? subject.text start stop state.position state.limit ignoreCase with
    | some next => .next { state with tasks := rest, position := next }
    | none => .fail state.choices

/-- Does a task. -/
def advance (subject : Subject) (task : Task) (state : State) (rest : List Task) : Outcome :=
  let goOn (tasks : List Task) := Outcome.next { state with tasks := tasks }
  match task with
  | .node node => matchNode subject node state rest
  | .close group start =>
    .next { state with
      tasks := rest
      captures := (state.captures.setIfInBounds (2 * group) (start + 1)).setIfInBounds
        (2 * group + 1) (state.position + 1) }
  | .again body greedy check start before =>
    if isEmptyTurn check start state.position before state.captures then goOn rest
    else .next (enterLoop body greedy check state rest)
  | .counted body low high greedy check turn start before =>
    if isEmptyTurn check start state.position before state.captures then goOn rest
    else .next (enterCount body low high greedy check (turn + 1) state rest)
  | .commit choices => .next { state with tasks := rest, choices := choices }
  | .back choices position limit =>
    .next { state with
      tasks := rest, choices := choices, position := position, limit := limit }
  | .refuse choices => .fail choices
  | .decide choices yes => .next { state with tasks := .node yes :: rest, choices := choices }
  | .endsAt position => if state.position = position then goOn rest else .fail state.choices
  | .grow body start =>
    match one? subject.text .any state.position state.limit with
    | none => goOn rest
    | some next =>
      let stay := .resume rest state.position state.captures state.keep state.limit
      let choices := stay :: state.choices
      let further := .resume (.grow body start :: rest) next state.captures state.keep state.limit
      let tasks := .node body :: .endsAt next :: [.refuse choices]
      let starts := (startsBefore subject.text next 0 none).filter (start ≤ ·)
      .fail (starts.foldr (fun from_ choices =>
        .resume tasks from_ state.captures state.keep state.limit :: choices) (further :: choices))

/-- Takes up the latest choice. -/
def takeUp (subject : Subject) : List Choice → Option State
  | [] => none
  | .resume tasks position captures keep limit :: choices =>
    some ⟨tasks, position, captures, keep, limit, choices⟩
  | .shorten low tasks position captures keep limit :: choices =>
    let shorter := previous subject.text low position
    if shorter ≤ low then some ⟨tasks, low, captures, keep, limit, choices⟩
    else some ⟨tasks, shorter, captures, keep, limit,
      .shorten low tasks shorter captures keep limit :: choices⟩

/-- Does tasks until none is left; gives up when no choice is left, or after `fuel` of them. -/
def run (subject : Subject) : (fuel : Nat) → State → Option State
  | 0, _ => none
  | fuel + 1, state =>
    match state.tasks with
    | [] => some state
    | task :: rest =>
      match advance subject task state rest with
      | .next state => run subject fuel state
      | .fail choices =>
        match takeUp subject choices with
        | some state => run subject fuel state
        | none => none

/-- Number of tasks after which an attempt is given up. -/
def patience : Nat := 1 <<< 40

end Machine

/-- The match that begins at a position, in a search that began at `origin`. -/
def Program.attempt (program : Program) (text : Text) (origin position : Nat)
    (flags : SearchFlags) : Option Match :=
  let captures := Array.replicate (2 * (program.groups + 1)) 0
  let subject : Machine.Subject := ⟨text, flags, origin, program.bodies⟩
  let state : Machine.State := ⟨[.node program.root], position, captures, position, text.size, []⟩
  (Machine.run subject Machine.patience state).map fun final =>
    let start := min final.keep final.position
    { start := start
      stop := final.position
      groups := some (start, final.position) ::
        (List.range program.groups).map fun group => Machine.capture? final.captures (group + 1) }

end Highlight.Regex
