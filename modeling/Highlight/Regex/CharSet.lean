/-
**Sets of characters.**

The classes of a regex are built from ranges and from named properties by union, intersection and
complement (`CharSet`). A property can be limited to ASCII, where no other character has it:

* `Property.contains`, `CharSet.contains`: membership of a code point;
* `Property.ofName?`: the property a name stands for; case, blanks, hyphens and underscores in names
  do not matter;
* `CharTable`: a set with the answers for ASCII looked up beforehand.
-/

import Highlight.Unicode.Category
import Highlight.Unicode.Property
import Highlight.Unicode.Fold

namespace Highlight.Regex

open Highlight.Unicode

/-- The named properties of characters. -/
inductive Property where
  | alnum | alpha | ascii | blank | cntrl | digit | graph | lower | print | punct | space | upper
  | xdigit | word
  | any | assigned
  | alphabetic | uppercase | lowercase
  | category (category : Category)
  | letter | mark | number | punctuation | symbol | separator | other
  | script (ranges : Ranges)

namespace Property

/-- Whether the character is a blank that ends a line or fills one. -/
def isSpace (code : Nat) : Bool := whiteSpace.contains code

/-- Whether the character is part of a word: a letter, mark, decimal digit or connector. -/
def isWord (code : Nat) : Bool :=
  Unicode.alphabetic.contains code ||
    let category := Category.of code
    category.isMark || category == .decimalNumber || category == .connectorPunctuation

/-- Whether the character shows ink. -/
def isGraph (code : Nat) : Bool :=
  !whiteSpace.contains code &&
    match Category.of code with
    | .control | .unassigned | .surrogate => false
    | _ => true

/-- The ASCII characters that are symbols but count as punctuation. -/
def asciiSymbols : List Nat := [36, 43, 60, 61, 62, 94, 96, 124, 126]

/-- Whether a code point has the property. -/
def contains : Property → Nat → Bool
  | alnum, code => Unicode.alphabetic.contains code || Category.of code == .decimalNumber
  | alpha, code => Unicode.alphabetic.contains code
  | ascii, code => code < 128
  | blank, code => code == 9 || Category.of code == .spaceSeparator
  | cntrl, code => Category.of code == .control
  | digit, code => Category.of code == .decimalNumber
  | graph, code => isGraph code
  | lower, code => Unicode.lowercase.contains code
  | print, code => isGraph code || Category.of code == .spaceSeparator
  | punct, code => (Category.of code).isPunctuation || asciiSymbols.contains code
  | space, code => isSpace code
  | upper, code => Unicode.uppercase.contains code
  | xdigit, code =>
    (48 ≤ code && code ≤ 57) || (65 ≤ code && code ≤ 70) || (97 ≤ code && code ≤ 102)
  | word, code => isWord code
  | any, _ => true
  | assigned, code => Category.of code != .unassigned
  | alphabetic, code => Unicode.alphabetic.contains code
  | uppercase, code => Unicode.uppercase.contains code
  | lowercase, code => Unicode.lowercase.contains code
  | category wanted, code => Category.of code == wanted
  | letter, code => (Category.of code).isLetter
  | mark, code => (Category.of code).isMark
  | number, code => (Category.of code).isNumber
  | punctuation, code => (Category.of code).isPunctuation
  | symbol, code => (Category.of code).isSymbol
  | separator, code => (Category.of code).isSeparator
  | other, code => (Category.of code).isOther
  | script ranges, code => ranges.contains code

/-- The properties with a name of their own. -/
def named : List (String × Property) :=
  [("alnum", alnum), ("alpha", alpha), ("ascii", ascii), ("blank", blank), ("cntrl", cntrl),
   ("digit", digit), ("graph", graph), ("lower", lower), ("print", print), ("punct", punct),
   ("space", space), ("upper", upper), ("xdigit", xdigit), ("word", word), ("any", any),
   ("assigned", assigned), ("alphabetic", alphabetic), ("uppercase", uppercase),
   ("lowercase", lowercase), ("whitespace", space), ("letter", letter), ("l", letter),
   ("mark", mark), ("m", mark), ("combiningmark", mark), ("number", number), ("n", number),
   ("punctuation", punctuation), ("p", punctuation), ("symbol", symbol), ("s", symbol),
   ("separator", separator), ("z", separator), ("other", other), ("c", other)]

/-- A name without what does not matter in it. -/
def normalized (name : String) : String :=
  String.ofList ((name.toList.filter fun char => char != ' ' && char != '-' && char != '_').map
    Char.toLower)

/-- The property a name stands for. -/
def ofName? (name : String) : Option Property :=
  let name := normalized name
  match named.find? fun entry => entry.1 == name with
  | some entry => some entry.2
  | none =>
    match Category.all.toList.find? fun category =>
        category.abbreviation == name || category.longName == name with
    | some found => some (category found)
    | none => (scripts.find? fun entry => entry.1 == name).map fun entry => script entry.2

end Property

/-- A set of characters. -/
inductive CharSet where
  /-- The code points from `low` to `high`. -/
  | range (low high : Nat)
  /-- The characters with a property, of ASCII only if so wished. -/
  | property (wanted : Property) (asciiOnly : Bool)
  | complement (set : CharSet)
  | union (first second : CharSet)
  | inter (first second : CharSet)
  /-- The characters equal up to case to one of the set. -/
  | folded (set : CharSet)

namespace CharSet

/-- The set without characters. -/
def none : CharSet := range 1 0

/-- Whether a code point is in the set. -/
def contains : CharSet → Nat → Bool
  | range low high, code => low ≤ code && code ≤ high
  | .property wanted asciiOnly, code => (!asciiOnly || code < 128) && wanted.contains code
  | complement set, code => !set.contains code
  | union first second, code => first.contains code || second.contains code
  | inter first second, code => first.contains code && second.contains code
  | folded set, code => (Fold.equivalents code).any set.contains

end CharSet

/-- A set of characters with its ASCII members looked up beforehand. -/
structure CharTable where
  set : CharSet
  ascii : ByteArray

namespace CharTable

/-- Looks the ASCII members of a set up. -/
def ofSet (set : CharSet) : CharTable where
  set := set
  ascii := ⟨(Array.range 128).map fun code => if set.contains code then 1 else 0⟩

/-- Whether a code point is in the set. -/
@[inline] def contains (table : CharTable) (code : Nat) : Bool :=
  if h : code < table.ascii.size then table.ascii[code] == 1 else table.set.contains code

end CharTable

end Highlight.Regex
