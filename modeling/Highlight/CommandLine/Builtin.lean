/-
**The libraries of the program.**

* `Libraries.builtin`: grammars are read from JSON, regexes are matched by going back, and registries
  are stored compactly.
-/

import Highlight.Archive.Basic
import Highlight.Json.Documents
import Highlight.Regex.Backtracking

namespace Highlight

/-- The libraries of the program. -/
def Libraries.builtin : Libraries := ⟨Grammar.Source.read, .backtracking, .compact⟩

end Highlight
