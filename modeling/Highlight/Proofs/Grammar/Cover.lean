/-
**Outlines that cover each other.**

A pattern may have copies, each of which lists copies of what the pattern lists. Through its containers a
copy leads to the same patterns, but for which of their copies they are:

* `Outline.Covers`: one outline has copies of the patterns of another one;
* `Outline.Covers.reaches_iff`, `Outline.Covers.expansion`: what is reached from a copy, and what it expands
  to, are copies of what the pattern reaches and expands to;
* `Outline.Covers.mem_flat_iff`, `Outline.Covers.flat_eq`: **the flat list of a copy has copies of exactly
  the patterns in the flat list of the pattern**, in the same order if its containers form no cycle.
-/

import Highlight.Proofs.Grammar.Outline

namespace Highlight.Grammar.Outline

/-- The patterns of one outline are copies of those of another one: each lists copies of what its origin
lists. -/
structure Covers (origin : PatternId → PatternId) (copies outline : Outline) : Prop where
  children : ∀ id, (copies.children id).map origin = outline.children (origin id)
  isContainer : ∀ id, copies.isContainer id = outline.isContainer (origin id)

namespace Covers

variable {origin : PatternId → PatternId} {copies outline : Outline}
  (covers : Covers origin copies outline)
include covers

/-- What copies lead to is a copy of what they are copies of leads to. -/
theorem leads {items : List PatternId} {id : PatternId} (leads : copies.Leads items id) :
    outline.Leads (items.map origin) (origin id) := by
  induction leads with
  | listed member => exact .listed (List.mem_map_of_mem member)
  | @inside items middle id member container _ ih =>
    rw [covers.children] at ih
    exact .inside (List.mem_map_of_mem member) (covers.isContainer middle ▸ container) ih

/-- What a list leads to has a copy that copies of the list lead to. -/
theorem exists_leads {items : List PatternId} {id : PatternId}
    (leads : outline.Leads (items.map origin) id) :
    ∃ copy, origin copy = id ∧ copies.Leads items copy := by
  generalize listed : items.map origin = below at leads
  induction leads generalizing items with
  | listed member =>
    subst listed
    obtain ⟨copy, member, same⟩ := List.mem_map.mp member
    exact ⟨copy, same, .listed member⟩
  | inside member container _ ih =>
    subst listed
    obtain ⟨middle, isItem, rfl⟩ := List.mem_map.mp member
    obtain ⟨copy, same, leads⟩ := ih (covers.children middle)
    exact ⟨copy, same, .inside isItem ((covers.isContainer middle).trans container) leads⟩

/-- **What a copy reaches are copies of what the pattern reaches**, of each of them one at least. -/
theorem reaches_iff {id other : PatternId} :
    outline.Reaches (origin id) other ↔ ∃ copy, origin copy = other ∧ copies.Reaches id copy := by
  unfold Reaches
  rw [← covers.children]
  constructor
  · exact covers.exists_leads
  · rintro ⟨copy, rfl, leads⟩
    exact covers.leads leads

/-- Copies expand to copies. -/
theorem expansion {items full : List PatternId} (expansion : copies.Expansion items full) :
    outline.Expansion (items.map origin) (full.map origin) := by
  induction expansion with
  | nil => exact .nil
  | @pattern id others full plain _ ih =>
    exact .pattern (covers.isContainer id ▸ plain) ih
  | @container id others inner full container _ _ ihInner ihRest =>
    rw [covers.children] at ihInner
    rw [List.map_append]
    exact .container (covers.isContainer id ▸ container) ihInner ihRest

/-- Copies form a cycle only if what they are copies of does. -/
theorem acyclic {id : PatternId} (acyclic : outline.Acyclic (origin id)) : copies.Acyclic id := by
  intro middle reaches container cycle
  refine acyclic (origin middle) (covers.reaches_iff.mpr ⟨middle, rfl, reaches⟩) ?_
    (covers.reaches_iff.mpr ⟨middle, rfl, cycle⟩)
  exact covers.isContainer middle ▸ container

variable {id : PatternId} {children own : List PatternId}

/-- **The flat list of a copy has copies of exactly the patterns in the flat list.** -/
theorem mem_flat_iff (flattens : outline.Flattens (origin id) children)
    (copied : copies.Flattens id own) (child : PatternId) :
    child ∈ children ↔ child ∈ own.map origin := by
  rw [flattens.mem_iff, covers.reaches_iff, List.mem_map]
  constructor
  · rintro ⟨⟨copy, rfl, reaches⟩, plain⟩
    exact ⟨copy, (copied.mem_iff copy).mpr ⟨reaches, (covers.isContainer copy).trans plain⟩, rfl⟩
  · rintro ⟨copy, member, rfl⟩
    obtain ⟨reaches, plain⟩ := (copied.mem_iff copy).mp member
    exact ⟨⟨copy, rfl, reaches⟩, (covers.isContainer copy).symm.trans plain⟩

/-- **It has them in the same order**, if the containers form no cycle. -/
theorem flat_eq (flattens : outline.Flattens (origin id) children)
    (copied : copies.Flattens id own) (acyclic : outline.Acyclic (origin id)) :
    (own.map origin).eraseDups = children := by
  obtain ⟨full, expands, rfl⟩ := flattens.order acyclic
  obtain ⟨ownFull, ownExpands, rfl⟩ := copied.order (covers.acyclic acyclic)
  have same := covers.expansion ((ownExpands ownFull).mpr rfl)
  rw [covers.children] at same
  rw [eraseDups_map_eraseDups, (expands _).mp same]

end Covers

end Highlight.Grammar.Outline
