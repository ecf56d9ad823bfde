/-
**Texts in quotes.**

A text is shown between double quotes. Quotes and backslashes get a backslash, line feeds and the
like a letter, and every other character that would not be seen by itself its number: control and
format characters, separators other than the space, unassigned ones, and marks that would attach to
the character before.
-/

import Highlight.Unicode.Category
import Highlight.Unicode.Property

namespace Highlight.Text

open Unicode

/-- Whether a character is seen by itself. -/
def isVisible (char : Char) : Bool :=
  char == ' ' ||
    let category := Category.of char.toNat
    !category.isOther && !category.isSeparator && !graphemeExtend.contains char.toNat

/-- A character as it is shown between quotes. -/
def quotedChar (char : Char) : List Char :=
  match char with
  | '"' => ['\\', '"']
  | '\\' => ['\\', '\\']
  | '\n' => ['\\', 'n']
  | '\r' => ['\\', 'r']
  | '\t' => ['\\', 't']
  | '\x00' => ['\\', '0']
  | _ =>
    if isVisible char then [char]
    else ['\\', 'u', '\x7b'] ++ Nat.toDigits 16 char.toNat ++ ['\x7d']

/-- A string between quotes. -/
def quoted (string : String) : String :=
  String.ofList ('"' :: string.toList.flatMap quotedChar ++ ['"'])

end Highlight.Text
