/-
**What can be wrong with a regex.**

Each cause has a constructor, with the name it is about where there is one; `Cause.message` is the
wording and `Cause.code` the number, which is shown only for regexes that fail as members of a set.
-/

import Highlight.Regex.Basic

namespace Highlight.Regex

/-- The causes for which a regex is refused. -/
inductive Cause where
  | invalidArgument
  | endAtEscape
  | endAtMeta
  | endAtControl
  | metaCode
  | controlCode
  | emptyClass
  | endInClass
  | emptyRange
  | classAtRangeEnd
  | classAtRangeStart
  | posixBracket
  | propertyName (name : String)
  | repeatNothing
  | repeatInvalid
  | repeatTooBig
  | unmatchedOpen
  | unmatchedClose
  | endInGroup
  | groupOption
  | wholeOption
  | optionCombination
  | emptyName
  | invalidName (name : String)
  | nameChar (name : String)
  | undefinedName (name : String)
  | undefinedGroup (name : String)
  | ambiguousCall (name : String)
  | backReference
  | numberedReference
  | endlessRecursion
  | lookBehind
  | condition
  | absentGroup
  | numberTooBig
  | charTooShort
  | charInvalid
  | codeTooBig
  | codeTooLong
  | codeInvalid
  | calloutName
  | tooDeep
  | tooManyGroups
  deriving DecidableEq, Repr

namespace Cause

/-- The wording of a cause. -/
def message : Cause → String
  | invalidArgument => "invalid argument"
  | endAtEscape => "end pattern at escape"
  | endAtMeta => "end pattern at meta"
  | endAtControl => "end pattern at control"
  | metaCode => "invalid meta-code syntax"
  | controlCode => "invalid control-code syntax"
  | emptyClass => "empty char-class"
  | endInClass => "premature end of char-class"
  | emptyRange => "empty range in char class"
  | classAtRangeEnd => "char-class value at end of range"
  | classAtRangeStart => "unmatched range specifier in char-class"
  | posixBracket => "invalid POSIX bracket type"
  | propertyName name => "invalid character property name \x7b" ++ name ++ "\x7d"
  | repeatNothing => "target of repeat operator is not specified"
  | repeatInvalid => "target of repeat operator is invalid"
  | repeatTooBig => "too big number for repeat range"
  | unmatchedOpen => "end pattern with unmatched parenthesis"
  | unmatchedClose => "unmatched close parenthesis"
  | endInGroup => "end pattern in group"
  | groupOption => "undefined group option"
  | wholeOption => "invalid group option"
  | optionCombination => "invalid combination of options"
  | emptyName => "group name is empty"
  | invalidName name => "invalid group name <" ++ name ++ ">"
  | nameChar name => "invalid char in group name <" ++ name ++ ">"
  | undefinedName name => "undefined name <" ++ name ++ "> reference"
  | undefinedGroup name => "undefined group <" ++ name ++ "> reference"
  | ambiguousCall name => "multiplex definition name <" ++ name ++ "> call"
  | backReference => "invalid backref number/name"
  | numberedReference => "numbered backref/call is not allowed. (use name)"
  | endlessRecursion => "never ending recursion"
  | lookBehind => "invalid pattern in look-behind"
  | condition => "invalid if-else syntax"
  | absentGroup => "invalid absent group pattern"
  | numberTooBig => "too big number"
  | charTooShort => "too short multibyte string"
  | charInvalid => "invalid wide-char value"
  | codeTooBig => "too big wide-char value"
  | codeTooLong => "too long wide-char value"
  | codeInvalid => "invalid code point value"
  | calloutName => "undefined callout name"
  | tooDeep => "parse depth limit over"
  | tooManyGroups => "too many captures"

/-- The number of a cause that only a member of a set can have. -/
def code : Cause → Int
  | invalidArgument => -30
  | optionCombination => -403
  | _ => -1

/-- The cause as it is reported. -/
def error (cause : Cause) : Error := ⟨cause.code, cause.message⟩

end Cause

end Highlight.Regex
