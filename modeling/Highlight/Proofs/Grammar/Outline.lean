/-
**Taking every pattern once, wherever containers lead.**

The patterns of a grammar list each other, and containers stand for what they list. A walk goes through
a list and into the containers in it, and passes over what it has met before:

* `Outline.Leads`, `Outline.Reaches`: what a list leads to, and a pattern, through containers only;
* `Outline.Expansion`: the list with its containers replaced by what they hold, again and again;
* `Outline.Walks`: a walk, which goes as deep as the containers are nested;
* `Outline.Walks.mem_iff`: **a walk meets exactly what its list leads to**, also if containers hold each
  other;
* `Outline.Walks.leaves_eq_eraseDups`: **what it meets is in the order of the expansion**, if they do
  not;
* `Outline.Flattens`: all of this of the flat list of a pattern.
-/

import Mathlib.Data.Finset.Card
import Mathlib.Data.List.Nodup
import Highlight.Grammar.Basic

namespace Highlight.Grammar

/-! ### First occurrences in lists -/

section Lists

variable {α β : Type} [DecidableEq α] [DecidableEq β]

/-- What comes behind a list is new or has occurred. -/
theorem eraseDups_concat (names : List α) (name : α) :
    (names ++ [name]).eraseDups = if name ∈ names then names.eraseDups else names.eraseDups ++ [name] := by
  rw [List.eraseDups_append]
  unfold List.removeAll
  by_cases known : name ∈ names
  · rw [if_pos known, List.filter_cons_of_neg (by simpa using known), List.filter_nil,
      List.eraseDups_nil, List.append_nil]
  · rw [if_neg known, List.filter_cons_of_pos (by simpa using known), List.filter_nil]
    rfl

/-- Nothing occurs first twice. -/
theorem nodup_eraseDups (names : List α) : names.eraseDups.Nodup := by
  induction names using List.reverseRecOn with
  | nil => exact List.nodup_nil
  | append_singleton names name ih =>
    rw [eraseDups_concat]
    split
    · exact ih
    · rename_i unknown
      exact List.concat_eq_append ▸ ih.concat fun member => unknown (List.mem_eraseDups.mp member)

/-- Of what a changed list has, the first occurrences are found among those in the list. -/
theorem eraseDups_map_eraseDups (change : α → β) (items : List α) :
    (items.eraseDups.map change).eraseDups = (items.map change).eraseDups := by
  induction items using List.reverseRecOn with
  | nil => rfl
  | append_singleton items item ih =>
    rw [eraseDups_concat, List.map_append, List.map_singleton, eraseDups_concat]
    by_cases known : item ∈ items
    · rw [if_pos known, if_pos (List.mem_map_of_mem known), ih]
    · have same : change item ∈ items.eraseDups.map change ↔ change item ∈ items.map change := by
        simp only [List.mem_map, List.mem_eraseDups]
      rw [if_neg known, List.map_append, List.map_singleton, eraseDups_concat, ih]
      simp only [same]

end Lists

/-! ### Outlines -/

/-- Which patterns a pattern lists, in their order, and which patterns only stand for what they
list. -/
structure Outline where
  children : PatternId → List PatternId
  isContainer : PatternId → Bool

namespace Outline

variable {outline : Outline} {items others full : List PatternId} {id other : PatternId}

/-- What a list leads to: what is in it, and what the containers in it lead to. -/
inductive Leads (outline : Outline) : List PatternId → PatternId → Prop where
  | listed {items : List PatternId} {id : PatternId} (member : id ∈ items) : Leads outline items id
  | inside {items : List PatternId} {middle id : PatternId} (member : middle ∈ items)
      (container : outline.isContainer middle = true)
      (leads : Leads outline (outline.children middle) id) : Leads outline items id

/-- What can be reached from a pattern by what patterns list, through containers only. -/
def Reaches (outline : Outline) (id : PatternId) : PatternId → Prop :=
  outline.Leads (outline.children id)

/-- The containers that can be reached from a pattern do not lead back to themselves. -/
def Acyclic (outline : Outline) (id : PatternId) : Prop :=
  ∀ middle, outline.Reaches id middle → outline.isContainer middle = true →
    ¬ outline.Reaches middle middle

/-- A list with its containers replaced by what they list, and so on until none is left. -/
inductive Expansion (outline : Outline) : List PatternId → List PatternId → Prop where
  | nil : Expansion outline [] []
  | pattern {id : PatternId} {others full : List PatternId}
      (plain : outline.isContainer id = false) (rest : Expansion outline others full) :
      Expansion outline (id :: others) (id :: full)
  | container {id : PatternId} {others inner full : List PatternId}
      (container : outline.isContainer id = true)
      (expands : Expansion outline (outline.children id) inner)
      (rest : Expansion outline others full) : Expansion outline (id :: others) (inner ++ full)

/-- A walk through a list: what had been met before, and what has been met behind it, in order. -/
inductive Walks (outline : Outline) : List PatternId → List PatternId → List PatternId → Prop where
  | nil {met : List PatternId} : Walks outline [] met met
  | again {id : PatternId} {others met after : List PatternId} (known : id ∈ met)
      (rest : Walks outline others met after) : Walks outline (id :: others) met after
  | pattern {id : PatternId} {others met after : List PatternId} (new : id ∉ met)
      (plain : outline.isContainer id = false) (rest : Walks outline others (met ++ [id]) after) :
      Walks outline (id :: others) met after
  | container {id : PatternId} {others met middle after : List PatternId} (new : id ∉ met)
      (container : outline.isContainer id = true)
      (inner : Walks outline (outline.children id) (met ++ [id]) middle)
      (rest : Walks outline others middle after) : Walks outline (id :: others) met after

/-! ### What a list leads to -/

theorem Leads.mono (leads : outline.Leads items id) (more : items ⊆ others) :
    outline.Leads others id := by
  cases leads with
  | listed member => exact .listed (more member)
  | inside member container leads => exact .inside (more member) container leads

theorem Leads.mem_or_mem_children (leads : outline.Leads items id) :
    id ∈ items ∨ ∃ middle, id ∈ outline.children middle := by
  induction leads with
  | listed member => exact Or.inl member
  | inside _ _ _ ih => exact Or.inr (ih.elim (fun member => ⟨_, member⟩) fun listed => listed)

theorem Leads.tail (leads : outline.Leads others other) : outline.Leads (id :: others) other :=
  leads.mono (List.subset_cons_self _ _)

/-- Of what a list leads to, the containers that have been met list nothing that has not. -/
def Settled (outline : Outline) (items met : List PatternId) : Prop :=
  ∀ middle ∈ met, outline.Leads items middle → outline.isContainer middle = true →
    outline.children middle ⊆ met

theorem Settled.mono {met : List PatternId} (settled : outline.Settled items met)
    (fewer : ∀ {middle}, outline.Leads others middle → outline.Leads items middle) :
    outline.Settled others met :=
  fun middle known leads => settled middle known (fewer leads)

/-- If a list has been met, all that it leads to has. -/
theorem Leads.mem_of_settled {met : List PatternId} (leads : outline.Leads items id)
    (listed : items ⊆ met) (settled : outline.Settled items met) : id ∈ met := by
  induction leads with
  | listed member => exact listed member
  | inside member container _ ih =>
    exact ih (settled _ (listed member) (.listed member) container)
      (settled.mono fun leads => .inside member container leads)

/-! ### Walks -/

namespace Walks

variable {met after : List PatternId}

/-- A walk only adds to what has been met. -/
theorem subset (walks : outline.Walks items met after) : met ⊆ after := by
  induction walks with
  | nil => exact List.Subset.refl _
  | again _ _ ih => exact ih
  | pattern _ _ _ ih => exact List.Subset.trans (List.subset_append_left _ _) ih
  | container _ _ _ _ ihInner ihRest =>
    exact List.Subset.trans (List.subset_append_left _ _) (List.Subset.trans ihInner ihRest)

theorem length_le (walks : outline.Walks items met after) : met.length ≤ after.length := by
  induction walks with
  | nil => exact le_rfl
  | again _ _ ih => exact ih
  | pattern _ _ _ ih =>
    rw [List.length_append] at ih
    exact (Nat.le_add_right _ _).trans ih
  | container _ _ _ _ ihInner ihRest =>
    rw [List.length_append] at ihInner
    exact ((Nat.le_add_right _ _).trans ihInner).trans ihRest

/-- A walk meets nothing twice. -/
theorem nodup (walks : outline.Walks items met after) (once : met.Nodup) : after.Nodup := by
  induction walks with
  | nil => exact once
  | again _ _ ih => exact ih once
  | pattern new _ _ ih => exact ih (List.concat_eq_append ▸ once.concat new)
  | container new _ _ _ ihInner ihRest =>
    exact ihRest (ihInner (List.concat_eq_append ▸ once.concat new))

/-- A walk meets what its list leads to. -/
theorem leads_of_mem (walks : outline.Walks items met after) :
    ∀ other ∈ after, other ∈ met ∨ outline.Leads items other := by
  induction walks with
  | nil => exact fun other member => Or.inl member
  | again _ _ ih =>
    intro other member
    exact (ih other member).imp_right .tail
  | @pattern id others met after _ _ _ ih =>
    intro other member
    rcases ih other member with known | leads
    · rcases List.mem_append.mp known with known | here
      · exact Or.inl known
      · exact Or.inr (.listed (List.mem_singleton.mp here ▸ List.mem_cons_self))
    · exact Or.inr leads.tail
  | @container id others met middle after _ container _ _ ihInner ihRest =>
    intro other member
    rcases ihRest other member with known | leads
    · rcases ihInner other known with known | leads
      · rcases List.mem_append.mp known with known | here
        · exact Or.inl known
        · exact Or.inr (.listed (List.mem_singleton.mp here ▸ List.mem_cons_self))
      · exact Or.inr (.inside List.mem_cons_self container leads)
    · exact Or.inr leads.tail

/-- A walk meets all of its list, and what the containers list that it is the first to meet. -/
theorem covers (walks : outline.Walks items met after) :
    items ⊆ after ∧ ∀ middle ∈ after, middle ∈ met ∨
      (outline.isContainer middle = true → outline.children middle ⊆ after) := by
  induction walks with
  | nil => exact ⟨List.nil_subset _, fun middle member => Or.inl member⟩
  | again known rest ih =>
    exact ⟨List.cons_subset.mpr ⟨rest.subset known, ih.1⟩, ih.2⟩
  | @pattern id others met after _ plain rest ih =>
    have here : id ∈ after := rest.subset (List.mem_append_right _ List.mem_cons_self)
    refine ⟨List.cons_subset.mpr ⟨here, ih.1⟩, fun middle member => ?_⟩
    rcases ih.2 middle member with known | lists
    · rcases List.mem_append.mp known with known | same
      · exact Or.inl known
      · rw [List.mem_singleton.mp same, plain]
        exact Or.inr fun container => nomatch container
    · exact Or.inr lists
  | @container id others met reached after _ _ inner rest ihInner ihRest =>
    have here : id ∈ after :=
      rest.subset (inner.subset (List.mem_append_right _ List.mem_cons_self))
    refine ⟨List.cons_subset.mpr ⟨here, ihRest.1⟩, fun middle member => ?_⟩
    rcases ihRest.2 middle member with known | lists
    · rcases ihInner.2 middle known with known | lists
      · rcases List.mem_append.mp known with known | same
        · exact Or.inl known
        · rw [List.mem_singleton.mp same]
          exact Or.inr fun _ => List.Subset.trans ihInner.1 rest.subset
      · exact Or.inr fun container => List.Subset.trans (lists container) rest.subset
    · exact Or.inr lists

/-- **A walk from nothing meets exactly what its list leads to.** -/
theorem mem_iff (walks : outline.Walks items [] after) :
    id ∈ after ↔ outline.Leads items id := by
  obtain ⟨listed, closes⟩ := walks.covers
  constructor
  · intro member
    exact (walks.leads_of_mem id member).resolve_left List.not_mem_nil
  · intro leads
    exact leads.mem_of_settled listed fun middle known _ =>
      (closes middle known).resolve_left List.not_mem_nil

end Walks

/-! ### Expansions -/

/-- An expansion holds what the list leads to, but no container. -/
theorem Expansion.leads_of_mem (expansion : outline.Expansion items full) :
    ∀ other ∈ full, outline.Leads items other ∧ outline.isContainer other = false := by
  induction expansion with
  | nil => exact fun other member => nomatch member
  | pattern plain _ ih =>
    intro other member
    rcases List.mem_cons.mp member with rfl | member
    · exact ⟨.listed List.mem_cons_self, plain⟩
    · exact ⟨(ih other member).1.tail, (ih other member).2⟩
  | container container _ _ ihInner ihRest =>
    intro other member
    rcases List.mem_append.mp member with member | member
    · exact ⟨.inside List.mem_cons_self container (ihInner other member).1, (ihInner other member).2⟩
    · exact ⟨(ihRest other member).1.tail, (ihRest other member).2⟩

/-- A list has one expansion. -/
theorem Expansion.unique (expansion : outline.Expansion items full) {rival : List PatternId}
    (second : outline.Expansion items rival) : full = rival := by
  induction expansion generalizing rival with
  | nil =>
    cases second
    rfl
  | pattern plain _ ih =>
    cases second with
    | pattern _ rest => rw [ih rest]
    | container container => cases plain.symm.trans container
  | container container _ _ ihInner ihRest =>
    cases second with
    | pattern plain => cases plain.symm.trans container
    | container _ expands rest => rw [ihInner expands, ihRest rest]

/-- Each item of a list can be expanded if that goes for the containers in it. -/
theorem exists_expansion_of_forall
    (inner : ∀ id ∈ items, outline.isContainer id = true →
      ∃ full, outline.Expansion (outline.children id) full) :
    ∃ full, outline.Expansion items full := by
  induction items with
  | nil => exact ⟨[], .nil⟩
  | cons id others ih =>
    obtain ⟨full, rest⟩ := ih fun other member => inner other (List.mem_cons_of_mem _ member)
    cases kind : outline.isContainer id with
    | false => exact ⟨_, .pattern kind rest⟩
    | true =>
      obtain ⟨front, expands⟩ := inner id List.mem_cons_self kind
      exact ⟨_, .container kind expands rest⟩

/-- **What a pattern lists has an expansion**, if a finite number of patterns can be reached from it
and the containers among them form no cycle. -/
theorem exists_expansion {known : List PatternId}
    (reached : ∀ other, outline.Reaches id other → other ∈ known)
    (acyclic : outline.Acyclic id) : ∃ full, outline.Expansion (outline.children id) full := by
  classical
  -- Fewer patterns can be reached from a container than from what lists it, by one at least.
  induction count : (known.toFinset.filter (outline.Reaches id)).card
    using Nat.strong_induction_on generalizing id with
  | _ count ih =>
  refine exists_expansion_of_forall fun middle member container => ?_
  have further : ∀ {other}, outline.Reaches middle other → outline.Reaches id other :=
    fun leads => .inside member container leads
  refine ih _ ?_ (fun other leads => reached other (further leads))
    (fun other leads => acyclic other (further leads)) rfl
  rw [← count]
  refine Finset.card_lt_card (Finset.ssubset_iff_of_subset ?_ |>.mpr ⟨middle, ?_, ?_⟩)
  · intro other
    simp only [Finset.mem_filter]
    exact fun ⟨known, leads⟩ => ⟨known, further leads⟩
  · exact Finset.mem_filter.mpr
      ⟨List.mem_toFinset.mpr (reached middle (.listed member)), .listed member⟩
  · intro there
    exact acyclic middle (.listed member) container (Finset.mem_filter.mp there).2

/-! ### First occurrences -/

/-- What is new in a list, where it occurs first. -/
def news (known items : List PatternId) : List PatternId :=
  (items.filter fun id => id ∉ known).eraseDups

theorem mem_news {known items : List PatternId} : id ∈ news known items ↔ id ∈ items ∧ id ∉ known := by
  unfold news
  rw [List.mem_eraseDups, List.mem_filter, decide_eq_true_iff]

theorem news_nil (items : List PatternId) : news [] items = items.eraseDups := by
  unfold news
  rw [List.filter_eq_self.mpr fun id _ => decide_eq_true List.not_mem_nil]

theorem news_append (known front back : List PatternId) :
    news known (front ++ back) = news known front ++ news (known ++ news known front) back := by
  have behind : (back.filter fun id => id ∉ known).removeAll (front.filter fun id => id ∉ known) =
      back.filter fun id => id ∉ known ++ news known front := by
    unfold List.removeAll
    rw [List.filter_filter]
    refine List.filter_congr fun id _ => ?_
    rw [Bool.eq_iff_iff]
    simp only [List.elem_eq_mem, List.mem_filter, List.mem_append, mem_news, decide_eq_true_iff,
      Bool.and_eq_true, Bool.not_eq_true', decide_eq_false_iff_not]
    tauto
  rw [news, List.filter_append, List.eraseDups_append, behind]
  rfl

theorem news_eq_nil {known items : List PatternId} (all : items ⊆ known) : news known items = [] := by
  refine List.eq_nil_iff_forall_not_mem.mpr fun id member => ?_
  obtain ⟨listed, new⟩ := mem_news.mp member
  exact new (all listed)

theorem news_singleton {known : List PatternId} (new : id ∉ known) : news known [id] = [id] := by
  have kept : [id].filter (fun id => id ∉ known) = [id] :=
    List.filter_cons_of_pos (decide_eq_true new)
  rw [news, kept, List.eraseDups_cons]
  rfl

/-- The patterns in a list that are no containers. -/
def leaves (outline : Outline) (items : List PatternId) : List PatternId :=
  items.filter fun id => !outline.isContainer id

theorem mem_leaves : id ∈ outline.leaves items ↔ id ∈ items ∧ outline.isContainer id = false := by
  unfold leaves
  rw [List.mem_filter, Bool.not_eq_true']

section Settled

variable {met middle after : List PatternId}

theorem Settled.pattern (settled : outline.Settled items met)
    (plain : outline.isContainer id = false) : outline.Settled items (met ++ [id]) := by
  intro other member leads container
  rcases List.mem_append.mp member with known | same
  · exact List.Subset.trans (settled other known leads container) (List.subset_append_left _ _)
  · rw [List.mem_singleton.mp same, plain] at container
    cases container

/-- A walk enters a container that does not lead back to itself. -/
theorem Settled.enter (settled : outline.Settled (id :: others) met)
    (container : outline.isContainer id = true) (acyclic : ¬ outline.Reaches id id) :
    outline.Settled (outline.children id) (met ++ [id]) := by
  intro other member leads isContainer
  rcases List.mem_append.mp member with known | same
  · have known := settled other known (.inside List.mem_cons_self container leads) isContainer
    exact List.Subset.trans known (List.subset_append_left _ _)
  · rw [List.mem_singleton.mp same] at leads
    exact absurd leads acyclic

/-- A walk leaves a container. -/
theorem Settled.leave (settled : outline.Settled (id :: others) met)
    (inner : outline.Walks (outline.children id) (met ++ [id]) middle) :
    outline.Settled others middle := by
  intro other member leads isContainer
  obtain ⟨lists, closes⟩ := inner.covers
  rcases closes other member with known | new
  · rcases List.mem_append.mp known with known | same
    · exact List.Subset.trans (settled other known leads.tail isContainer)
        (List.Subset.trans (List.subset_append_left _ _) inner.subset)
    · rw [List.mem_singleton.mp same]
      exact lists
  · exact new isContainer

/-- What has been met stands for nothing new. -/
theorem Expansion.exists_of_met (expansion : outline.Expansion (id :: others) full) (known : id ∈ met)
    (settled : outline.Settled (id :: others) met) :
    ∃ front back, full = front ++ back ∧ front ⊆ outline.leaves met ∧
      outline.Expansion others back := by
  cases expansion with
  | @pattern _ _ back plain expands =>
    refine ⟨[id], back, rfl, List.cons_subset.mpr ⟨mem_leaves.mpr ⟨known, plain⟩, ?_⟩, expands⟩
    exact List.nil_subset _
  | @container _ _ front back container inner expands =>
    refine ⟨front, back, rfl, fun other member => ?_, expands⟩
    obtain ⟨leads, plain⟩ := inner.leads_of_mem other member
    have listed := settled id known (.listed List.mem_cons_self) container
    exact mem_leaves.mpr ⟨leads.mem_of_settled listed
      (settled.mono fun leads => .inside List.mem_cons_self container leads), plain⟩

/-- What a walk meets behind what had been met before is what is new in the expansion. -/
theorem Walks.leaves_eq (walks : outline.Walks items met after)
    (acyclic : ∀ middle, outline.Leads items middle → outline.isContainer middle = true →
      ¬ outline.Reaches middle middle)
    (settled : outline.Settled items met) (expansion : outline.Expansion items full) :
    outline.leaves after = outline.leaves met ++ news (outline.leaves met) full := by
  induction walks generalizing full with
  | nil =>
    cases expansion
    rw [news_eq_nil (List.nil_subset _), List.append_nil]
  | again known rest ih =>
    obtain ⟨front, back, rfl, known, expands⟩ := expansion.exists_of_met known settled
    rw [news_append, news_eq_nil known, List.nil_append, List.append_nil]
    exact ih (fun middle leads => acyclic middle leads.tail) (settled.mono .tail) expands
  | @pattern id others met after new plain rest ih =>
    cases expansion with
    | container container => cases plain.symm.trans container
    | @pattern _ _ full _ expands =>
      have here : outline.leaves (met ++ [id]) = outline.leaves met ++ [id] := by
        unfold Outline.leaves
        rw [List.filter_append, List.filter_cons_of_pos (by rw [plain]; rfl), List.filter_nil]
      have first : news (outline.leaves met) [id] = [id] :=
        news_singleton fun known => new (mem_leaves.mp known).1
      have behind := ih (fun middle leads => acyclic middle leads.tail)
        ((settled.mono .tail).pattern plain) expands
      show _ = outline.leaves met ++ news (outline.leaves met) ([id] ++ full)
      rw [behind, here, news_append, first, List.append_assoc]
  | @container id others met middle after new container inner rest ihInner ihRest =>
    cases expansion with
    | pattern plain => cases plain.symm.trans container
    | @container _ _ front back _ expands expandsRest =>
      have here : outline.leaves (met ++ [id]) = outline.leaves met := by
        unfold Outline.leaves
        rw [List.filter_append, List.filter_cons_of_neg (by rw [container]; decide), List.filter_nil,
          List.append_nil]
      have inside := ihInner
        (fun other leads => acyclic other (.inside List.mem_cons_self container leads))
        (settled.enter container (acyclic id (.listed List.mem_cons_self) container)) expands
      have behind := ihRest (fun other leads => acyclic other leads.tail) (settled.leave inner)
        expandsRest
      rw [behind, inside, here, news_append, List.append_assoc]

end Settled

/-- **A walk from nothing meets the patterns in the order of the expansion**, if the containers form no
cycle. -/
theorem Walks.leaves_eq_eraseDups {after : List PatternId}
    (walks : outline.Walks (outline.children id) [] after) (acyclic : outline.Acyclic id) :
    ∃ full, (∀ list, outline.Expansion (outline.children id) list ↔ list = full) ∧
      outline.leaves after = full.eraseDups := by
  obtain ⟨full, expansion⟩ := exists_expansion (fun other leads => walks.mem_iff.mpr leads) acyclic
  refine ⟨full, fun list => ⟨fun other => other.unique expansion, fun same => same ▸ expansion⟩, ?_⟩
  rw [walks.leaves_eq acyclic (fun middle member => nomatch member) expansion]
  exact news_nil full

/-! ### Flat lists -/

/-- A list of patterns is what a pattern lists, with every container replaced by what it holds. -/
structure Flattens (outline : Outline) (id : PatternId) (children : List PatternId) : Prop where
  /-- A walk that nothing bounds comes to its end, and meets these patterns. -/
  walk : ∃ met, outline.Walks (outline.children id) [] met ∧ children = outline.leaves met
  nodup : children.Nodup
  mem_iff : ∀ child, child ∈ children ↔
    outline.Reaches id child ∧ outline.isContainer child = false
  /-- The patterns are in the order in which they occur first in the expansion, if there is one. -/
  order : outline.Acyclic id → ∃ full,
    (∀ list, outline.Expansion (outline.children id) list ↔ list = full) ∧
      children = full.eraseDups

/-- **A walk makes the flat list.** -/
theorem Walks.flattens {met : List PatternId}
    (walks : outline.Walks (outline.children id) [] met) :
    outline.Flattens id (outline.leaves met) where
  walk := ⟨met, walks, rfl⟩
  nodup := (walks.nodup List.nodup_nil).filter _
  mem_iff child := by rw [mem_leaves, walks.mem_iff]; rfl
  order := walks.leaves_eq_eraseDups

end Outline

end Highlight.Grammar
