/-
**A text that keeps itself highlighted.**

A buffer holds a text with its highlighter and its cache, and keeps them in step:

* `Buffer.replace`, `Buffer.insert`, `Buffer.delete`: edits;
* `Buffer.process`, `Buffer.processSlices`, `Buffer.processUntilIdle`: work, a slice at a time;
* `Buffer.styles`, `Buffer.style`: styles;
* `Buffer.flush`: what has changed since the last time, and which listeners are told of it.
-/

import Highlight.Query.Cache

namespace Highlight

/-- Number of a listener. -/
abbrev ListenerId := Nat

/-- A text that keeps itself highlighted. -/
structure Buffer where
  text : Text
  highlighter : Highlighter
  cache : StyleCache
  /-- Those who are told of changes, in the order they were added. -/
  listeners : List ListenerId
  nextListener : ListenerId

namespace Buffer

/-- The buffer of a text that nothing has been done for yet. -/
def ofText (text : Text) (grammar : Grammar) (config : Config) : Buffer :=
  ⟨text, .ofSize grammar config text.size, .empty, [], 0⟩

/-- Number of bytes of the text. -/
def size (buffer : Buffer) : Nat := buffer.text.size

/-- The grammar the text is highlighted with. -/
def grammar (buffer : Buffer) : Grammar := buffer.highlighter.grammar

/-- Whether there is work to do. -/
def needsProcessing (buffer : Buffer) : Bool := buffer.highlighter.needsProcessing

/-! ### Changes -/

/-- Replaces the bytes `[start, stop)`, which have to begin and end between characters. -/
def replace (buffer : Buffer) (start stop : Nat) (inserted : String) :
    Except Fault (Change × Buffer) := do
  let (text, change) ← buffer.text.replace start stop inserted
  let highlighter ← buffer.highlighter.edit change
  let cache ← buffer.cache.edit change highlighter.grammar
  return (change, { buffer with text := text, highlighter := highlighter, cache := cache })

/-- Puts a string in at a position. -/
def insert (buffer : Buffer) (position : Nat) (inserted : String) :
    Except Fault (Change × Buffer) :=
  buffer.replace position position inserted

/-- Takes the bytes `[start, stop)` out. -/
def delete (buffer : Buffer) (start stop : Nat) : Except Fault (Change × Buffer) :=
  buffer.replace start stop ""

/-- Changes the grammar; the whole text is to be processed again. -/
def setGrammar (buffer : Buffer) (grammar : Grammar) : Buffer :=
  { buffer with
    highlighter := buffer.highlighter.setGrammar grammar buffer.size, cache := .empty }

/-! ### Work -/

/-- A slice of work, with the number of bytes that were scanned. -/
def process (buffer : Buffer) (deadline : Deadline) : Except Fault (Nat × Buffer) := do
  let ⟨text, highlighter, cache, listeners, nextListener⟩ := buffer
  let (scanned, highlighter) ← highlighter.process text deadline
  return (scanned, ⟨text, highlighter, cache, listeners, nextListener⟩)

/-- What several slices of work have come to. -/
structure Work where
  slices : Nat
  scanned : Nat
  buffer : Buffer

/-- Slices of work as long as there is work to do, at most `limit`; each slice has its deadline. -/
def processSlices (deadline : Nat → Deadline) : (limit : Nat) → Work → Except Fault Work
  | 0, work => return work
  | limit + 1, ⟨slices, scanned, buffer⟩ => do
    if buffer.needsProcessing then
      let (further, buffer) ← buffer.process (deadline slices)
      processSlices deadline limit ⟨slices + 1, ← checkedAdd scanned further, buffer⟩
    else return ⟨slices, scanned, buffer⟩

/-- Slices of work until there is nothing left to do. Every slice gets on by a byte, so that there is
a bound for their number. -/
def processUntilIdle (buffer : Buffer) (deadline : Nat → Deadline) : Except Fault Work := do
  let work ← processSlices deadline (buffer.size + 2) ⟨0, 0, buffer⟩
  if work.buffer.needsProcessing then throw .stalled
  return work

/-! ### Styles -/

/-- The styles of the `count` bytes from `position` on, as far as the text has them. -/
def styles (buffer : Buffer) (position count : Nat) :
    Except Fault (Answer (Array StyleId) × Buffer) := do
  let ⟨text, highlighter, cache, listeners, nextListener⟩ := buffer
  let (answer, cache) ← cache.styles text highlighter position count
  return (answer, ⟨text, highlighter, cache, listeners, nextListener⟩)

/-- The style of the byte at a position. -/
def style (buffer : Buffer) (position : Nat) : Except Fault (Answer StyleId × Buffer) := do
  let (answer, cache) ← buffer.cache.style buffer.text buffer.highlighter position
  return (answer, { buffer with cache := cache })

/-! ### Listeners -/

/-- Adds a listener. -/
def listen (buffer : Buffer) : ListenerId × Buffer :=
  (buffer.nextListener,
    { buffer with
      listeners := buffer.listeners ++ [buffer.nextListener]
      nextListener := buffer.nextListener + 1 })

/-- Removes a listener, and tells whether it was there. -/
def unlisten (buffer : Buffer) (id : ListenerId) : Bool × Buffer :=
  (buffer.listeners.contains id,
    { buffer with listeners := buffer.listeners.filter (· ≠ id) })

/-- The range where styles may have changed since the last time, if there is one, and the listeners
that are told of it, in order. -/
def flush (buffer : Buffer) : Option Span × List (ListenerId × Span) × Buffer :=
  match buffer.highlighter.takeDirty with
  | (none, highlighter) => (none, [], { buffer with highlighter := highlighter })
  | (some dirty, highlighter) =>
    let span := dirty.clip buffer.size
    (some span, buffer.listeners.map fun id => (id, span),
      { buffer with highlighter := highlighter, cache := buffer.cache.invalidate span })

end Buffer

end Highlight
