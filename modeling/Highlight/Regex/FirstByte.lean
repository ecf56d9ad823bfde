/-
**What a match can begin with.**

Most positions of a subject can be passed over because no match begins with the byte that is there.
`Node.firstBytes` collects the bytes that one can begin with, and `Program.filter?` puts them into a
table, unless the regex matches the empty text.
-/

import Highlight.Regex.Machine

namespace Highlight.Regex

/-- The bytes a match can begin with, as the bits of a number, and whether a match can be empty. -/
structure FirstBytes where
  bits : Nat
  nullable : Bool

namespace FirstBytes

/-- Any byte or none. -/
def any : FirstBytes := ⟨1 <<< 256 - 1, true⟩

/-- No byte. -/
def none : FirstBytes := ⟨0, true⟩

/-- One after the other. -/
def andThen (first second : FirstBytes) : FirstBytes :=
  if first.nullable then ⟨first.bits ||| second.bits, second.nullable⟩ else first

/-- One or the other. -/
def or (first second : FirstBytes) : FirstBytes :=
  ⟨first.bits ||| second.bits, first.nullable || second.nullable⟩

/-- The bytes that a character can begin with that passes a test. -/
def ofTest (test : OneChar) : FirstBytes where
  bits :=
    (List.range 128).foldl (fun bits code =>
      if Machine.OneChar.holds test code then bits ||| 1 <<< code else bits) (1 <<< 256 - 1 <<< 128)
  nullable := false

end FirstBytes

/-- The bytes a match of a node can begin with. -/
def Node.firstBytes : Node → FirstBytes
  | .empty => .none
  | .fail => ⟨0, false⟩
  | .bytes literal => if literal.size = 0 then .none else ⟨1 <<< (literal.get! 0).toNat, false⟩
  | .one test => .ofTest test
  | .run test => ⟨(FirstBytes.ofTest test).bits, true⟩
  | .anchor _ => .none
  | .seq first second => first.firstBytes.andThen second.firstBytes
  | .alt first second => first.firstBytes.or second.firstBytes
  | .loop body _ _ atLeastOnce =>
    let first := body.firstBytes
    if atLeastOnce then first else ⟨first.bits, true⟩
  | .count body low _ _ _ =>
    let first := body.firstBytes
    if low = 0 then ⟨first.bits, true⟩ else first
  | .group _ body => body.firstBytes
  | .atomic body => body.firstBytes
  | .ahead _ _ => .none
  | .behind _ _ _ _ => .none
  | .keep => .none
  | .captured _ => .none
  | _ => .any

/-- A table of the bytes a match can begin with; none where a match can be empty. -/
def Program.filter? (program : Program) : Option ByteArray :=
  let first := program.root.firstBytes
  if first.nullable then none
  else some ⟨(Array.range 256).map fun byte => if first.bits.testBit byte then 1 else 0⟩

end Highlight.Regex
