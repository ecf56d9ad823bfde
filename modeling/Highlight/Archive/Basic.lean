/-
**Stored registries as bytes.**

* `Archive.compact`: an archive whose bytes begin with a mark. Bytes that do not begin with it cannot
  be read at all; others are refused if they do not go on like a stored registry.
-/

import Highlight.Archive.Codec
import Highlight.Libraries

namespace Highlight

namespace Codec

/-- Compiled rules. -/
def pattern : Codec Pattern :=
  mapped
    (pair (pair number (pair (optional number) (pair (optional number) (optional number))))
      (pair (pair (list (optional number)) (list (optional number)))
        (pair (pair (optional number) (optional number)) (pair bool (pair number (list number))))))
    (fun p => ((p.id, p.style, p.opening, p.closing), (p.openingCaptures, p.closingCaptures),
      (p.pushCapture, p.endCapture), p.closingLast, p.maxExtend, p.children))
    fun ((id, style, opening, closing), (openingCaptures, closingCaptures),
        (pushCapture, endCapture), closingLast, maxExtend, children) =>
      some ⟨id, style, opening, closing, openingCaptures, closingCaptures, pushCapture, endCapture,
        closingLast, maxExtend, children⟩

/-- Grammars. -/
def grammar : Codec StoredGrammar :=
  mapped
    (pair (pair string (pair (optional string) (list string)))
      (pair (pair (list string) (pair (list string) (list pattern))) (pair number bool)))
    (fun g => ((g.name, g.displayName, g.fileTypes), (g.styles, g.regexes, g.patterns), g.maxExtend,
      g.approximate))
    fun ((name, displayName, fileTypes), (styles, regexes, patterns), maxExtend, approximate) =>
      some ⟨name, displayName, fileTypes, styles, regexes, patterns, maxExtend, approximate⟩

/-- Registries. -/
def registry : Codec StoredRegistry :=
  mapped (pair (list grammar) (list (pair string number)))
    (fun registry => (registry.grammars, registry.names))
    fun (grammars, names) => some ⟨grammars, names⟩

end Codec

namespace Archive

/-- What the bytes of a stored registry begin with, which no text does. -/
def mark : List UInt8 := [0xFF, 0x48, 0x4C, 0x31]

/-- The archive that writes values one behind the other. -/
def compact : Archive where
  write stored := ⟨(mark ++ Codec.registry.write stored).toArray⟩
  read bytes :=
    let bytes := bytes.data.toList
    if bytes.take mark.length = mark then
      match Codec.registry.read (bytes.drop mark.length) with
      | some (stored, []) => .ok stored
      | _ => .error .dump
    else .error .unreadable

end Archive

end Highlight
