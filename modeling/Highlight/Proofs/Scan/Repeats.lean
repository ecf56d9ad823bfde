/-
**A match that ends a region repeats what the match that began it has captured.**

A region may remember the text of a group of the match that it was entered with, and may ask that a group of
the match that ends it has the same text. Between the two lie as many matches, regions, windows and scans as
you like, and nothing is asked of the regexes:

* `Event.group?`: the text that a group of the match of an event has;
* `Grammar.Causes.origin`: an event leaves what is on the stack, or enters a region on top of it;
* `Grammar.History.origin`: **every region on a stack was there at the beginning or has been entered at some
  event**, and has not been left since;
* `Grammar.Finds.repeats`: a match that ends a region repeats what the region remembers;
* `Grammar.Session.closing_repeats_opening`: **it repeats the text that was captured where that very region
  was entered**;
* `Grammar.History.exists_closing`: a region is left by such a match only.
-/

import Highlight.Proofs.Scan.Events

namespace Highlight

/-! ### The matches of events -/

namespace Event

/-- The scan has used a match that ends the innermost region. -/
def Closes (event : Event) : Prop := ∃ window found, event.cause = .used window (.closing found)

/-- The scan has used a match of a child. -/
def Begins (event : Event) (id : PatternId) : Prop :=
  ∃ window found, event.cause = .used window (.child id found)

/-- The text of a group of the match that the scan has used. -/
def group? (event : Event) (text : Text) (group : Nat) : Option Text :=
  match event.cause with
  | .used window choice => (choice.found.moved window.offset).group? text group
  | _ => none

/-- The innermost region, with those around it, is the one that has been entered at an earlier event, and
has not been left in between. -/
structure Pairs (opening : Event) (between : List Event) (closing : Event) : Prop where
  entered : opening.move.state.stack.regions = closing.before.stack.regions
  left : closing.move.state.stack.regions = opening.before.stack.regions
  inside : ∀ event ∈ between, closing.before.stack.regions <:+ event.move.state.stack.regions

end Event

namespace Grammar

variable {grammar : Grammar} {text : Text}

/-! ### Where regions come from -/

/-- A region is entered inside of others at an event. What its frame remembers has been captured there. -/
structure Opens (grammar : Grammar) (text : Text) (event : Event) (frame : Frame)
    (outer : List Frame) : Prop where
  before : event.before.stack.regions = outer
  after : event.move.state.stack.regions = frame :: outer
  begins : event.Begins frame.pattern
  captured : ∀ pattern, grammar.pattern frame.pattern = .ok pattern → ∀ piece ∈ frame.pushed,
    ∃ group ∈ pattern.pushCapture, event.group? text group = some piece

theorem Finds.covers {window : Window} {state : ScanState} {choice : Choice}
    (finds : grammar.Finds text window state choice) : ∃ stop, window.Covers text stop := by
  obtain ⟨_, looks, -, -⟩ := finds
  obtain ⟨_, -, around⟩ := looks.around
  exact (Window.covers_of_around around).2

/-- **An event leaves what is on the stack, or enters a region on top of it.** -/
theorem Causes.origin {event : Event} (caused : grammar.Causes text event) {frame : Frame}
    {outer : List Frame} (there : frame :: outer <:+ event.move.state.stack.regions) :
    frame :: outer <:+ event.before.stack.regions ∨ grammar.Opens text event frame outer := by
  cases caused with
  | plain _ _ _ _ moved =>
    obtain ⟨style, -, rfl⟩ := plainMove_eq_ok moved
    exact Or.inl there
  | forced _ _ moved =>
    obtain ⟨style, stop, -, -, rfl⟩ := forcedMove_eq_ok moved
    exact Or.inl there
  | @used state window choice move finds fresh moved =>
    obtain ⟨captures, style, stack, kind, emptyAt, uses, rfl⟩ := matchMove_eq_ok fresh moved
    cases uses with
    | closing => exact Or.inl (there.trans (List.tail_suffix _))
    | whole => exact Or.inl there
    | @opening id found child pushed style known enters =>
      rw [entered?_eq_ite] at enters
      split at enters
      · cases enters
        rcases List.suffix_cons_iff.mp there with same | below
        · cases same
          refine Or.inr ⟨rfl, rfl, ⟨window, found, rfl⟩, fun pattern knownToo piece member => ?_⟩
          cases known.symm.trans knownToo
          obtain ⟨group, remembers, captured⟩ := Option.bind_eq_some_iff.mp member
          obtain ⟨stop, covers⟩ := finds.covers
          exact ⟨group, remembers, Regex.Match.group?_of_window covers captured⟩
        · exact Or.inl below
      · cases enters

/-- **A region that is on a stack was there at the beginning or has been entered since**, and has not been
left. -/
theorem History.origin {state final : ScanState} {events : List Event}
    (history : grammar.History text state events final) {frame : Frame} {outer : List Frame}
    (there : frame :: outer <:+ final.stack.regions) :
    (frame :: outer <:+ state.stack.regions ∧
      ∀ event ∈ events, frame :: outer <:+ event.move.state.stack.regions) ∨
    ∃ first opening between, events = first ++ opening :: between ∧
      grammar.Opens text opening frame outer ∧
      ∀ event ∈ between, frame :: outer <:+ event.move.state.stack.regions := by
  induction history with
  | nil => exact Or.inl ⟨there, fun _ member => nomatch member⟩
  | @cons state final event rest starts caused _ ih =>
    subst starts
    rcases ih there with ⟨afterwards, stays⟩ | ⟨first, opening, between, rfl, opens, stays⟩
    · rcases caused.origin afterwards with before | opens
      · exact Or.inl ⟨before, List.forall_mem_cons.mpr ⟨afterwards, stays⟩⟩
      · exact Or.inr ⟨[], event, rest, rfl, opens, stays⟩
    · exact Or.inr ⟨event :: first, opening, between, rfl, opens, stays⟩

/-! ### Where regions end -/

/-- A match that ends a region repeats what the region remembers. -/
theorem Finds.repeats {window : Window} {state : ScanState} {found : Regex.Match}
    (finds : grammar.Finds text window state (.closing found)) {pattern : Pattern} {group : Nat}
    {remembered : Text} (known : grammar.pattern state.stack.top.pattern = .ok pattern)
    (asked : pattern.endCapture = some group) (pushed : state.stack.top.pushed = some remembered) :
    (found.moved window.offset).group? text group = some remembered := by
  obtain ⟨stop, covers⟩ := finds.covers
  obtain ⟨origin, -, chosen, -⟩ := finds
  obtain ⟨other, matcher, _, _, top, tries, -⟩ := exists_attempt_of_choose chosen
  cases known.symm.trans top
  cases tries with
  | closing _ _ repeated =>
    simp only [Grammar.repeats, asked, pushed, beq_iff_eq] at repeated
    exact Regex.Match.group?_of_window covers repeated

/-- A match that ends a region leaves it. -/
theorem Causes.closing {event : Event} (caused : grammar.Causes text event) (closes : event.Closes) :
    event.move.state.stack = event.before.stack.outer ∧
      ∃ window found, event.cause = .used window (.closing found) ∧
        grammar.Finds text window event.before (.closing found) := by
  obtain ⟨window, found, same⟩ := closes
  cases caused with
  | plain => cases same
  | forced => cases same
  | used finds fresh moved =>
    cases same
    obtain ⟨captures, style, stack, kind, emptyAt, uses, rfl⟩ := matchMove_eq_ok fresh moved
    cases uses with
    | closing => exact ⟨rfl, window, found, rfl, finds⟩

/-- A region that is on the stack no more has been left by a match that ends it. -/
theorem History.exists_closing {state final : ScanState} {events : List Event}
    (history : grammar.History text state events final) {frame : Frame} {outer : List Frame}
    (there : frame :: outer <:+ state.stack.regions)
    (gone : ¬ frame :: outer <:+ final.stack.regions) :
    ∃ earlier closing later, events = earlier ++ closing :: later ∧ closing.Closes ∧
      closing.before.stack.regions = frame :: outer := by
  induction history with
  | nil => exact absurd there gone
  | @cons state final event rest starts caused _ ih =>
    subst starts
    by_cases stays : frame :: outer <:+ event.move.state.stack.regions
    · obtain ⟨earlier, closing, later, rfl, closes, regions⟩ := ih stays gone
      exact ⟨event :: earlier, closing, later, rfl, closes, regions⟩
    · refine ⟨[], event, rest, rfl, ?_⟩
      cases caused with
      | plain _ _ _ _ moved =>
        obtain ⟨style, -, rfl⟩ := plainMove_eq_ok moved
        exact absurd there stays
      | forced _ _ moved =>
        obtain ⟨style, stop, -, -, rfl⟩ := forcedMove_eq_ok moved
        exact absurd there stays
      | @used state window choice move finds fresh moved =>
        obtain ⟨captures, style, stack, kind, emptyAt, uses, rfl⟩ := matchMove_eq_ok fresh moved
        cases uses with
        | @closing found =>
          refine ⟨⟨window, found, rfl⟩, ?_⟩
          cases regions : state.stack.regions with
          | nil =>
            simp only [regions] at there
            cases List.suffix_nil.mp there
          | cons top below =>
            simp only [PatternStack.outer, regions, List.tail_cons] at there stays
            exact ((List.suffix_cons_iff.mp there).resolve_right stays).symm
        | whole => exact absurd there stays
        | opening _ enters =>
          rw [entered?_eq_ite] at enters
          split at enters
          · cases enters
            exact absurd (there.trans (List.suffix_cons _ _)) stays
          · cases enters

/-! ### Both ends of a region -/

/-- What scans that began inside of no region are inside of has been entered by them. -/
theorem History.exists_opening {state final : ScanState} {events : List Event}
    (history : grammar.History text state events final) (root : state.stack = .root) {frame : Frame}
    {outer : List Frame} (regions : final.stack.regions = frame :: outer) :
    ∃ first opening between, events = first ++ opening :: between ∧
      grammar.Opens text opening frame outer ∧
      ∀ event ∈ between, frame :: outer <:+ event.move.state.stack.regions := by
  refine (history.origin (regions ▸ List.suffix_rfl)).resolve_left ?_
  rintro ⟨there, -⟩
  rw [root] at there
  cases List.suffix_nil.mp there

/-- **Where a region remembers a text and asks for it at its end, the match that ends it repeats the text
that was captured by the match which that very region was entered with**, whatever lies in between. This
holds in all scans of a text that begin inside of no region, and of which each is taken up where the one
before ended; and every further scan that goes well goes on with such scans. -/
theorem Session.closing_repeats_opening {state final : ScanState} {events : List Event}
    (session : grammar.Session text state events final) (root : state.stack = .root) :
    (∀ earlier closing later, events = earlier ++ closing :: later → closing.Closes →
      ∀ pattern, grammar.pattern closing.before.stack.top.pattern = .ok pattern →
      ∀ group ∈ pattern.endCapture, ∀ remembered ∈ closing.before.stack.top.pushed,
        closing.group? text group = some remembered ∧
        ∃ first opening between, earlier = first ++ opening :: between ∧
          Event.Pairs opening between closing ∧
          opening.Begins closing.before.stack.top.pattern ∧
          ∃ captured ∈ pattern.pushCapture, opening.group? text captured = some remembered) ∧
    ∀ {σ : Type} (sink : Sink σ) (unit limit : Nat) (collected after : σ) (next : ScanState)
      (ending : ScanEnd),
      (Scanner.ofUnit grammar unit).run text sink limit final collected = .ok (after, next, ending) →
      ∃ more flow,
        (Scanner.ofUnit grammar unit).Tells text sink limit final collected more ⟨after, next, flow⟩ ∧
          grammar.Session text state (events ++ more) next := by
  refine ⟨?_, fun sink unit limit collected after next ending went => ?_⟩
  · intro earlier closing later split closes pattern known group asked remembered pushed
    obtain ⟨before, caused⟩ := (split ▸ session.history).split
    obtain ⟨leaves, window, found, same, finds⟩ := caused.closing closes
    refine ⟨?_, ?_⟩
    · unfold Event.group?
      rw [same]
      exact finds.repeats known asked pushed
    · cases regions : closing.before.stack.regions with
      | nil =>
        -- The root remembers nothing.
        rw [PatternStack.top, regions] at pushed
        cases pushed
      | cons frame outer =>
        have top : closing.before.stack.top = frame := by
          rw [PatternStack.top, regions]
          rfl
        rw [top] at known pushed ⊢
        obtain ⟨first, opening, between, split, opens, stays⟩ := before.exists_opening root regions
        refine ⟨first, opening, between, split, ⟨?_, ?_, ?_⟩, opens.begins,
          opens.captured pattern known remembered pushed⟩
        · rw [opens.after, regions]
        · rw [leaves, PatternStack.outer, regions, opens.before, List.tail_cons]
        · rwa [regions]
  · obtain ⟨more, flow, tells⟩ := Scanner.exists_tells went
    exact ⟨more, flow, tells, session.scan tells⟩

/-- The matcher of one of two characters. -/
def either (first second : UInt8) : Regex.Matcher :=
  ⟨fun subject origin position flags =>
    (Regex.Matcher.ofCharacter first).attempt subject origin position flags <|>
      (Regex.Matcher.ofCharacter second).attempt subject origin position flags⟩

/-- The grammar of a text between two slashes or two bars. -/
def delimited : Grammar :=
  { brackets with
    name := "delimited"
    regexes := #[⟨"[/|]", either 0x2F 0x7C, .ok (either 0x2F 0x7C)⟩]
    patterns := #[{ Pattern.blank 0 1 with children := [1] },
      { Pattern.blank 1 1 with
        style := some 1, opening := some 0, closing := some 0, pushCapture := some 0,
        endCapture := some 0 }] }

/-- A text between slashes with a bar in it, which is scanned twice: the slash at the end repeats the one
that the first scan has been stopped behind. -/
theorem Session.closing_repeats_opening_delimited :
    ∃ events final earlier closing later first opening between,
      delimited.Session (.ofString "/a|b/c") .initial events final ∧
        events = earlier ++ closing :: later ∧ earlier = first ++ opening :: between ∧
        closing.Closes ∧ opening.Begins 1 ∧ Event.Pairs opening between closing ∧
        closing.group? (.ofString "/a|b/c") 0 = some (.ofString "/") ∧
        opening.group? (.ofString "/a|b/c") 0 = some (.ofString "/") := by
  have begun : ((Scanner.ofUnit delimited 4).run (.ofString "/a|b/c") ScanReport.sink 1 .initial []).map
      (fun outcome => outcome.2.1) =
        (.ok ⟨1, ⟨[⟨1, some (.ofString "/")⟩]⟩, none⟩ : Except Fault _) := by decide +kernel
  obtain ⟨⟨_, _, _⟩, went, rfl⟩ := Fault.map_eq_ok.mp begun
  obtain ⟨-, further⟩ := Session.closing_repeats_opening (.nil : delimited.Session _ .initial _ _) rfl
  obtain ⟨events, _, -, session⟩ := further _ _ _ _ _ _ _ went
  have ended : ((Scanner.ofUnit delimited 2).run (.ofString "/a|b/c") ScanReport.sink 9
      ⟨1, ⟨[⟨1, some (.ofString "/")⟩]⟩, none⟩ []).map (fun outcome => outcome.2.1.stack) =
        (.ok .root : Except Fault _) := by decide +kernel
  obtain ⟨⟨_, final, _⟩, wentToo, outside⟩ := Fault.map_eq_ok.mp ended
  obtain ⟨-, further⟩ := Session.closing_repeats_opening session rfl
  obtain ⟨others, _, tells, sessionToo⟩ := further _ _ _ _ _ _ _ wentToo
  obtain ⟨bracketed, -⟩ := Session.closing_repeats_opening sessionToo rfl
  -- The region that the first scan has entered is left in the second one.
  obtain ⟨earlier, closing, later, split, closes, regions⟩ :=
    tells.history.exists_closing
      (show [(⟨1, some (.ofString "/")⟩ : Frame)] <:+ _ from List.suffix_rfl) fun there => by
        rw [show final.stack = .root from outside] at there
        cases List.suffix_nil.mp there
  have top : closing.before.stack.top = ⟨1, some (.ofString "/")⟩ := by
    rw [PatternStack.top, regions]
    rfl
  have whole : [] ++ events ++ others = events ++ earlier ++ closing :: later := by
    rw [split, List.nil_append, List.append_assoc]
  obtain ⟨repeated, first, opening, between, splitToo, pairs, begins, captured, asked, opened⟩ :=
    bracketed (events ++ earlier) closing later whole closes _ (by rw [top]; rfl) 0 rfl _
      (by rw [top]; rfl)
  cases asked
  rw [top] at begins
  exact ⟨_, _, _, closing, later, first, opening, between, sessionToo, whole, splitToo, closes, begins,
    pairs, repeated, opened⟩

end Grammar

end Highlight
