/-
**A grammar file with a rule.**

* `Grammar.gaps`: the grammar whose only rule matches between characters, `Grammar.lawful_gaps`;
* `Grammar.gapsFile`: a file that holds it, with `Grammar.read_gapsFile` and `Grammar.compile_gaps`.
-/

import Highlight.CommandLine.Builtin
import Highlight.Proofs.Grammar.Compile
import Highlight.Proofs.Scan.Lawful

namespace Highlight

/-- The matcher of the empty regex, which matches between characters. -/
def Regex.Matcher.gap : Matcher := .ofProgram ⟨.empty, #[], 0, false⟩

theorem Regex.Matcher.lawful_gap : gap.Lawful := by
  intro subject origin position flags found held behind inside starts boundary here
  have matched : gap.attempt subject origin position flags =
      some ⟨min position position, position, [some (min position position, position)]⟩ := rfl
  cases matched.symm.trans here
  rw [min_self]
  exact ⟨behind, le_rfl, boundary, boundary⟩

namespace Grammar

/-- The grammar whose only rule matches between characters. -/
def gaps : Grammar :=
  { plain "gaps" with
    fileTypes := ["g"]
    regexes := #[⟨"", .gap, .ok .gap⟩]
    patterns := #[{ Pattern.blank 0 256 with children := [1] },
      { Pattern.blank 1 256 with opening := some 0 }] }

/-- A grammar with no regex but the empty one asks nothing else of it. -/
theorem lawful_of_regexes_eq {grammar : Grammar} (same : grammar.regexes = gaps.regexes) :
    grammar.Lawful := by
  have only : ∀ {id : RegexId} {regex : Regex}, grammar.regexes[id]? = some regex →
      regex = ⟨"", .gap, .ok .gap⟩ := by
    intro id regex known
    rw [same] at known
    exact List.mem_singleton.mp (List.mem_of_getElem? (Array.getElem?_toList.trans known))
  constructor
  · intro pattern _ id _ regex known
    obtain rfl := only known
    exact Regex.Matcher.lawful_gap
  · intro pattern _ id _ regex matcher known member
    obtain rfl := only known
    cases member
    exact Regex.Matcher.lawful_gap

theorem lawful_gaps : gaps.Lawful := lawful_of_regexes_eq rfl

/-- The grammar as it is written. -/
def gapsSource : Source :=
  { Source.named "gaps" with
    fileTypes := ["g"], rules := [⟨{ Head.blank with single := some "" }, []⟩] }

/-- The grammar as a file holds it. -/
def gapsFile : ByteArray :=
  ("\x7b\"name\":\"gaps\",\"fileTypes\":[\"g\"]," ++
    "\"patterns\":[\x7b\"match\":\"\"\x7d]\x7d").toUTF8

theorem read_gapsFile : Source.read gapsFile = .ok gapsSource := rfl

theorem compile_gaps : gapsSource.compile .backtracking = .ok gaps := by
  let flat : Compiler := ⟨256, #[defaultStyleName], gaps.regexes, gaps.patterns, #[[.pattern 1], []], []⟩
  let written : Compiler := { flat with
    patterns := #[Pattern.blank 0 256, { Pattern.blank 1 256 with opening := some 0 }] }
  have ruled : Compiler.rule .backtracking ⟨Head.blank, gapsSource.rules⟩
      ⟨256, #[defaultStyleName], #[], #[], #[], []⟩ = .ok (0, written) := rfl
  have flattened : written.resolved = .ok flat := rfl
  exact compile_of_rules rfl ruled flattened rfl rfl

end Grammar

end Highlight
