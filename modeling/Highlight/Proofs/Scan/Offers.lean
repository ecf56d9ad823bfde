/-
**A search for an accepted match is offered every match, from left to right.**

After a match that is refused a search goes on behind the character which that match starts with. It
neither passes over a match nor comes to one twice, however the matches overlap and however many bytes
the characters have:

* `Regex.Matcher.Starts`: the matches that start in a range;
* `Regex.Matcher.search_of_limit`: a search may look further than to the end of the range;
* `Regex.Matcher.Offers.Complete`: what a search is to be offered and what it is to find;
* `Regex.Matcher.findAt_complete`: **that is what it is offered and what it finds**.
-/

import Mathlib.Data.List.TakeWhile
import Highlight.Proofs.Scan.Winner

namespace Highlight.Regex.Matcher

variable {matcher : Matcher} {subject : Text} {flags : SearchFlags} {start stop : Nat}

/-- A match that starts in a range, between characters. -/
structure Starts (matcher : Matcher) (subject : Text) (flags : SearchFlags) (start stop : Nat)
    (found : Match) : Prop where
  behind : start ≤ found.start
  before : found.start < stop
  boundary : subject.isBoundary found.start = true
  here : matcher.attempt subject found.start found.start flags = some found

namespace Offers

/-- All matches that were offered, in their order. -/
def offered (offers : Offers) : List Match := offers.refused ++ offers.accepted.toList

/-- A search for an accepted match was offered each match that starts in the range, up to the first
one that is accepted, once and in their order. That one it found. -/
structure Complete (offers : Offers) (matcher : Matcher) (subject : Text) (flags : SearchFlags)
    (accepts : Match → Bool) (start stop : Nat) : Prop where
  increasing : offers.offered.Pairwise fun found later => found.start < later.start
  offered_iff : ∀ found, found ∈ offers.offered ↔
    matcher.Starts subject flags start stop found ∧
      ∀ best ∈ offers.accepted, found.start ≤ best.start
  refused : ∀ found ∈ offers.refused, accepts found = false
  none_iff : offers.accepted = none ↔
    ∀ found, matcher.Starts subject flags start stop found → accepts found = false
  some_iff : ∀ best, offers.accepted = some best ↔
    matcher.Starts subject flags start stop best ∧ accepts best = true ∧
      ∀ found, matcher.Starts subject flags start stop found → accepts found = true →
        best.start ≤ found.start

end Offers

/-- One match starts at a position. -/
theorem Starts.unique {found other : Match} (starts : matcher.Starts subject flags start stop found)
    (startsToo : matcher.Starts subject flags start stop other) (same : found.start = other.start) :
    found = other := by
  have here := starts.here
  rw [same, startsToo.here] at here
  exact (Option.some.inj here).symm

namespace Offers

variable {accepts : Match → Bool}

/-- If every match is refused all of them are offered. -/
theorem complete_of_refused {found : List Match}
    (increasing : found.Pairwise fun first later => first.start < later.start)
    (mem_iff : ∀ other, other ∈ found ↔ matcher.Starts subject flags start stop other)
    (refused : ∀ other ∈ found, accepts other = false) :
    Complete ⟨found, none⟩ matcher subject flags accepts start stop := by
  have offered : (Offers.mk found none).offered = found := List.append_nil found
  refine ⟨offered.symm ▸ increasing, fun other => ?_, refused, ?_, fun best => ?_⟩
  · rw [offered, mem_iff]
    exact ⟨fun starts => ⟨starts, fun best member => nomatch member⟩, fun ⟨starts, _⟩ => starts⟩
  · exact ⟨fun _ other starts => refused other ((mem_iff other).mpr starts), fun _ => rfl⟩
  · refine ⟨(fun missing => nomatch missing), fun ⟨starts, accepted, _⟩ => ?_⟩
    cases (refused best ((mem_iff best).mpr starts)).symm.trans accepted

/-- If a match is accepted those before it are offered, too. -/
theorem complete_of_accepted {front back : List Match} {best : Match}
    (increasing : (front ++ best :: back).Pairwise fun first later => first.start < later.start)
    (mem_iff : ∀ other, other ∈ front ++ best :: back ↔
      matcher.Starts subject flags start stop other)
    (refused : ∀ other ∈ front, accepts other = false) (accepted : accepts best = true) :
    Complete ⟨front, some best⟩ matcher subject flags accepts start stop := by
  obtain ⟨inFront, inBack, across⟩ := List.pairwise_append.mp increasing
  have before : ∀ other ∈ front, other.start < best.start := fun other member =>
    across other member best List.mem_cons_self
  have behind : ∀ other ∈ back, best.start < other.start := (List.pairwise_cons.mp inBack).1
  have starts := (mem_iff best).mp (List.mem_append_right front List.mem_cons_self)
  have least : ∀ other, matcher.Starts subject flags start stop other → accepts other = true →
      best.start ≤ other.start := by
    intro other startsToo acceptedToo
    rcases List.mem_append.mp ((mem_iff other).mpr startsToo) with member | member
    · cases (refused other member).symm.trans acceptedToo
    · rcases List.mem_cons.mp member with rfl | member
      · exact le_rfl
      · exact (behind other member).le
  have offered_iff : ∀ other, other ∈ (Offers.mk front (some best)).offered ↔
      other ∈ front ∨ other = best := fun other => by
    unfold offered
    rw [Option.toList_some, List.mem_append, List.mem_singleton]
  refine ⟨?_, fun other => ?_, refused, ?_, fun other => ?_⟩
  · exact increasing.sublist ((List.Sublist.refl front).append
      (List.Sublist.cons_cons best (List.nil_sublist back)))
  · rw [offered_iff, ← mem_iff, List.mem_append, List.mem_cons]
    simp only [Option.mem_def, Option.some.injEq, forall_eq']
    constructor
    · rintro (member | rfl)
      · exact ⟨Or.inl member, (before other member).le⟩
      · exact ⟨Or.inr (Or.inl rfl), le_rfl⟩
    · rintro ⟨member | rfl | member, earlier⟩
      · exact Or.inl member
      · exact Or.inr rfl
      · exact absurd earlier (not_le.mpr (behind other member))
  · refine ⟨(fun missing => nomatch missing), fun none => ?_⟩
    cases (none best starts).symm.trans accepted
  · constructor
    · rintro ⟨⟩
      exact ⟨starts, accepted, least⟩
    · rintro ⟨startsToo, acceptedToo, first⟩
      have same := (least other startsToo acceptedToo).antisymm (first best starts accepted)
      rw [starts.unique startsToo same]

/-- Of all matches, in their order, those are offered up to the first one that is accepted. -/
theorem complete_of_increasing {found : List Match}
    (increasing : found.Pairwise fun first later => first.start < later.start)
    (mem_iff : ∀ other, other ∈ found ↔ matcher.Starts subject flags start stop other) :
    Complete ⟨found.takeWhile (!accepts ·), found.find? accepts⟩ matcher subject flags accepts start
      stop := by
  cases outcome : found.find? accepts with
  | none =>
    have refused : ∀ other ∈ found, accepts other = false := fun other member =>
      Bool.eq_false_iff.mpr (List.find?_eq_none.mp outcome other member)
    have all : found.takeWhile (!accepts ·) = found :=
      List.takeWhile_eq_self_iff.mpr fun other member => by rw [refused other member]; rfl
    rw [all]
    exact complete_of_refused increasing mem_iff refused
  | some best =>
    obtain ⟨accepted, front, back, rfl, refused⟩ := List.find?_eq_some_iff_append.mp outcome
    have taken : (front ++ best :: back).takeWhile (!accepts ·) = front := by
      rw [List.takeWhile_append_of_pos refused, List.takeWhile_cons_of_neg (by rw [accepted]; decide),
        List.append_nil]
    rw [taken]
    exact complete_of_accepted increasing mem_iff
      (fun other member => (Bool.not_eq_true' _).mp (refused other member)) accepted

end Offers

/-! ### Searches -/

section Search

variable (anchored : matcher.Anchored) (held : subject.Held) (within : stop ≤ subject.size)
include anchored held within

theorem mem_outcomes_iff {found : Match} :
    found ∈ subject.outcomes (fun place => matcher.attempt subject place place flags) start stop ↔
      matcher.Starts subject flags start stop found := by
  rw [Text.mem_outcomes]
  constructor
  · rintro ⟨place, behind, before, boundary, here⟩
    have begins := (anchored held le_rfl (before.trans_le within) boundary boundary).2 found here
    subst begins
    exact ⟨behind, before, boundary, here⟩
  · rintro ⟨behind, before, boundary, here⟩
    exact ⟨found.start, behind, before, boundary, here⟩

/-- Matches that are found later start later. -/
theorem pairwise_starts :
    (subject.outcomes (fun place => matcher.attempt subject place place flags) start stop).Pairwise
      fun found later => found.start < later.start := by
  unfold Text.outcomes
  have increasing : (List.range' start (stop - start)).Pairwise (· < ·) := List.pairwise_lt_range' 1
  have places := increasing.filter fun place => subject.isBoundary place
  refine List.pairwise_filterMap.mpr (places.imp_of_mem ?_)
  intro place later member memberToo before found here other hereToo
  have begins : ∀ {place : Nat} {found : Match},
      place ∈ (List.range' start (stop - start)).filter (fun place => subject.isBoundary place) →
        matcher.attempt subject place place flags = some found → found.start = place := by
    intro place found member here
    obtain ⟨inRange, boundary⟩ := List.mem_filter.mp member
    obtain ⟨behind, before⟩ := List.mem_range'_1.mp inRange
    exact (anchored held le_rfl (by omega) boundary boundary).2 found here
  rw [begins member here, begins memberToo hereToo]
  exact before

/-- **A search that is not held up at the end of the range finds the same**, if what it finds behind
that end is left out. -/
theorem search_of_limit {limit : Nat} (further : stop ≤ limit) (inText : limit ≤ subject.size)
    (boundary : subject.isBoundary start = true) :
    matcher.search subject start stop flags =
      (matcher.search subject start limit flags).filter fun found => found.start < stop := by
  have first := firstFrom_first held.utf8 (fun place => matcher.attempt subject start place flags)
    boundary within
  have wide := firstFrom_first held.utf8 (fun place => matcher.attempt subject start place flags)
    boundary inText
  unfold search
  generalize firstFrom subject _ start limit = result at wide ⊢
  refine first.unique ?_
  cases wide with
  | none quiet => exact .none (quiet.mono le_rfl further)
  | @some place found behind before atPlace here quiet =>
    have same : found.start = place := by
      obtain ⟨sameHere, begins⟩ := anchored held behind (before.trans_le inText) boundary atPlace
      exact begins found (sameHere.symm.trans here)
    rw [Option.filter_some, same]
    by_cases inRange : place < stop
    · rw [if_pos (decide_eq_true inRange)]
      exact .some behind inRange atPlace here quiet
    · rw [if_neg (by simpa using inRange)]
      exact .none (quiet.mono le_rfl (not_lt.mp inRange))

end Search

/-- **A search for an accepted match ends, is offered the matches in their order up to the first one
that is accepted, and finds that one.** -/
theorem findAt_complete (anchored : matcher.Anchored) (held : subject.Held)
    (within : stop ≤ subject.size) (boundary : subject.isBoundary start = true)
    (flags : SearchFlags) (accepts : Match → Bool) :
    ∃ offers, matcher.findAt subject start stop flags (fun _ found => accepts found) [] =
        .ok offers ∧
      offers.Complete matcher subject flags accepts start stop := by
  refine ⟨_, findAt_eq accepts [] held.utf8 within boundary ?_ ?_,
    Offers.complete_of_increasing (pairwise_starts anchored held within) fun found =>
      mem_outcomes_iff anchored held within⟩
  · exact fun origin place _ starts earlier before boundary =>
      (anchored held earlier (before.trans_le within) starts boundary).1
  · exact fun place found _ before boundary =>
      (anchored held le_rfl (before.trans_le within) boundary boundary).2 found

/-- The matcher of all that is left of a subject. -/
def toEnd : Matcher :=
  ⟨fun subject _ position _ => some ⟨position, subject.size, [some (position, subject.size)]⟩⟩

theorem anchored_toEnd : toEnd.Anchored := by
  intro subject origin position flags held earlier inside starts boundary
  refine ⟨rfl, fun found here => ?_⟩
  cases here
  rfl

/-- Of matches that overlap, one of which starts with a character of two bytes, the third is accepted. -/
theorem findAt_complete_toEnd :
    let subject := Text.ofString "aßcd"
    let accepts := fun found : Match => decide (3 ≤ found.start)
    toEnd.Anchored ∧ subject.Held ∧ 4 ≤ subject.size ∧ subject.isBoundary 0 = true ∧
      toEnd.findAt subject 0 4 ⟨false, false⟩ (fun _ found => accepts found) [] =
        .ok ⟨[⟨0, 5, [some (0, 5)]⟩, ⟨1, 5, [some (1, 5)]⟩], some ⟨3, 5, [some (3, 5)]⟩⟩ ∧
      Offers.Complete ⟨[⟨0, 5, [some (0, 5)]⟩, ⟨1, 5, [some (1, 5)]⟩], some ⟨3, 5, [some (3, 5)]⟩⟩
        toEnd subject ⟨false, false⟩ accepts 0 4 := by
  intro subject accepts
  have held : subject.Held := ⟨Text.isUtf8_ofString _, by decide⟩
  have within : 4 ≤ subject.size := by decide
  have boundary : subject.isBoundary 0 = true := by decide
  have found : toEnd.findAt subject 0 4 ⟨false, false⟩ (fun _ found => accepts found) [] =
      .ok ⟨[⟨0, 5, [some (0, 5)]⟩, ⟨1, 5, [some (1, 5)]⟩], some ⟨3, 5, [some (3, 5)]⟩⟩ := by
    decide +kernel
  obtain ⟨offers, went, complete⟩ :=
    findAt_complete anchored_toEnd held within boundary ⟨false, false⟩ accepts
  cases went.symm.trans found
  exact ⟨anchored_toEnd, held, within, boundary, found, complete⟩

end Highlight.Regex.Matcher
