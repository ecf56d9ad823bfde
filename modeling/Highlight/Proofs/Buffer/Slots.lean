/-
**How many slots a buffer needs.**

As long as the text of a buffer stays shorter than a limit, there are no more slots than that, whatever is
done with it: breaks are spaced, and slots are used again. Numbers of slots can be kept in as few bits as
lengths of texts:

* `Buffer.Compact`: what is true of the slots between two operations;
* `Buffer.Compact.apply`: every operation keeps it so;
* `Buffer.run_compact`: **so it is after any operations**;
* `Buffer.allNumbered_of_short`: **there always are numbers for the breaks of texts that are not too long**.
-/

import Highlight.Proofs.Buffer.InStep
import Highlight.Proofs.Highlighter.Slots

namespace Highlight.Buffer

variable {limit : Nat} {buffer after : Buffer}

theorem Operation.Allowed.mono {admitted : Grammar → Prop} {bound : Nat} {text : Text}
    {operation : Operation} (allowed : operation.Allowed admitted limit text) (further : limit ≤ bound) :
    operation.Allowed admitted bound text := by
  cases operation with
  | replace start stop inserted => exact ⟨allowed.1, allowed.2.trans_le further⟩
  | setGrammar grammar => exact allowed
  | _ => trivial

/-- The text of a buffer is shorter than a limit, its breaks are spaced, and it has no more slots than the
limit. -/
structure Compact (limit : Nat) (buffer : Buffer) : Prop where
  inStep : buffer.InStep
  short : buffer.size < limit
  spaced : 0 < buffer.highlighter.config.spacing
  slots : buffer.slots ≤ limit

theorem compact_ofText {text : Text} {grammar : Grammar} {config : Config} (held : text.Held)
    (usable : Usable grammar) (spaced : 0 < config.spacing) (short : text.size < limit) :
    (ofText text grammar config).Compact limit :=
  ⟨inStep_ofText held usable, short, spaced, Nat.one_le_of_lt short⟩

namespace Compact

variable (compact : buffer.Compact limit)
include compact

/-- An operation that leaves the text and the index as they are. -/
theorem of_same (inStep : after.InStep) (sameText : after.text = buffer.text)
    (same : after.highlighter.config = buffer.highlighter.config)
    (sameBreaks : after.highlighter.breaks = buffer.highlighter.breaks) : after.Compact limit := by
  refine ⟨inStep, ?_, same ▸ compact.spaced, ?_⟩
  · unfold size
    rw [sameText]
    exact compact.short
  · unfold Buffer.slots
    rw [sameBreaks]
    exact compact.slots

theorem replace {start stop : Nat} {inserted : String} {change : Change} (inStep : after.InStep)
    (short : after.size < limit) (went : buffer.replace start stop inserted = .ok (change, after)) :
    after.Compact limit := by
  obtain ⟨-, edited, -⟩ := replace_eq_ok went
  have same := (Highlighter.edit_keeps (motive := fun _ => True) (fun _ _ => trivial)
    (fun _ _ => trivial) trivial edited).2.1
  exact ⟨inStep, short, same ▸ compact.spaced, Highlighter.slots_of_edit compact.slots edited⟩

variable (small : limit ≤ 2 ^ 32)
include small

theorem numbered : buffer.highlighter.breaks.Numbered := compact.slots.trans small

theorem process {deadline : Deadline} {scanned : Nat}
    (went : buffer.process deadline = .ok (scanned, after)) : after.Compact limit := by
  obtain ⟨processed, -, -⟩ := process_eq_ok went
  obtain ⟨behind, reached, ahead, laid⟩ := StyleCache.Reachable.laid compact.inStep
  have slots := laid.slots_of_process compact.spaced compact.short small compact.slots processed
  obtain ⟨inStep, sameText⟩ := compact.inStep.process went (slots.trans small)
  have same := (laid.after_process processed (slots.trans small)).2.1
  refine ⟨inStep, ?_, same ▸ compact.spaced, slots⟩
  unfold size
  rw [sameText]
  exact compact.short

/-- **Every operation that may be called and goes well keeps the slots so few.** -/
theorem apply {operation : Operation} (allowed : operation.Allowed Usable limit buffer.text)
    (went : operation.apply buffer = .ok after) : after.Compact limit := by
  have wide : limit ≤ 2 ^ 63 := small.trans (by decide)
  -- Work may store breaks. All other operations store none, so that there are numbers for the slots.
  have others (numbered : after.highlighter.breaks.Numbered) :=
    compact.inStep.apply (allowed.mono wide) went numbered
  have before : buffer.highlighter.breaks.Numbered := compact.numbered small
  cases operation with
  | replace start stop inserted =>
    obtain ⟨⟨change, next⟩, replaced, rfl⟩ := Fault.map_eq_ok.mp went
    obtain ⟨inStep, sameText⟩ := others (Highlighter.slots_of_edit before (replace_eq_ok replaced).2.1)
    exact compact.replace inStep ((congrArg Text.size sameText).trans_lt allowed.2) replaced
  | process deadline =>
    obtain ⟨⟨scanned, next⟩, processed, rfl⟩ := Fault.map_eq_ok.mp went
    exact compact.process small processed
  | work deadline =>
    obtain ⟨work, worked, rfl⟩ := Fault.map_eq_ok.mp went
    exact processUntilIdle_keeps (motive := fun _ after => after.Compact limit)
      (fun compact processed => compact.process small processed) compact worked
  | styles position count =>
    obtain ⟨⟨answer, next⟩, asked, rfl⟩ := Fault.map_eq_ok.mp went
    obtain ⟨-, -, same⟩ := styles_eq_ok asked
    obtain ⟨inStep, sameText⟩ := others (same ▸ before)
    exact compact.of_same inStep sameText (congrArg _ same) (congrArg _ same)
  | style position =>
    obtain ⟨⟨answer, next⟩, asked, rfl⟩ := Fault.map_eq_ok.mp went
    obtain ⟨-, -, same⟩ := style_eq_ok asked
    obtain ⟨inStep, sameText⟩ := others (same ▸ before)
    exact compact.of_same inStep sameText (congrArg _ same) (congrArg _ same)
  | flush =>
    cases went
    have same := highlighter_flush buffer
    obtain ⟨inStep, sameText⟩ := others (same ▸ before)
    exact compact.of_same inStep sameText (by rw [same]) (by rw [same])
  | setGrammar grammar =>
    cases went
    exact ⟨compact.inStep.setGrammar allowed, compact.short, compact.spaced,
      Nat.one_le_of_lt compact.short⟩
  | listen =>
    cases went
    exact compact.of_same (others before).1 rfl rfl rfl
  | unlisten id =>
    cases went
    exact compact.of_same (others before).1 rfl rfl rfl

/-- So do several of them, and there are numbers for the slots after each. -/
theorem run {operations : List Operation} (allowed : AllAllowed Usable limit buffer.text operations) :
    buffer.AllNumbered operations ∧
      ∀ {after : Buffer}, Buffer.run operations buffer = .ok after → after.Compact limit := by
  induction operations generalizing buffer with
  | nil =>
    refine ⟨trivial, fun went => ?_⟩
    cases went
    exact compact
  | cons operation rest ih =>
    have next : ∀ {next : Buffer}, operation.apply buffer = .ok next → next.Compact limit ∧
        AllAllowed Usable limit next.text rest := by
      intro next applied
      have compactNext := compact.apply small allowed.1 applied
      have sameText := (compact.inStep.apply (allowed.1.mono (small.trans (by decide))) applied
        (compactNext.numbered small)).2
      exact ⟨compactNext, sameText.symm ▸ allowed.2⟩
    refine ⟨fun after applied => ?_, fun went => ?_⟩
    · obtain ⟨compactNext, allowedNext⟩ := next applied
      exact ⟨compactNext.numbered small, (ih compactNext allowedNext).1⟩
    · obtain ⟨middle, applied, went⟩ := Fault.bind_eq_ok.mp went
      obtain ⟨compactNext, allowedNext⟩ := next applied
      exact (ih compactNext allowedNext).2 went

omit small in
/-- The number of a slot with a break is below the limit. -/
theorem lt_of_contains {id : BreakId} (live : buffer.highlighter.breaks.contains id = true) :
    id < limit := by
  obtain ⟨node, here⟩ := Option.isSome_iff_exists.mp live
  exact (BreakIndex.lt_size_of_node? here).trans_le compact.slots

end Compact

section Runs

variable {text : Text} {grammar : Grammar} {config : Config} {operations : List Operation}
  (held : text.Held) (usable : Usable grammar) (spaced : 0 < config.spacing)
include held usable spaced

/-- **After any operations there are no more slots than the limit that the text has stayed below**, and the
number of each slot with a break is below it as well. -/
theorem run_compact (short : text.size < limit) (small : limit ≤ 2 ^ 32)
    (allowed : AllAllowed Usable limit text operations)
    (went : run operations (ofText text grammar config) = .ok buffer) :
    buffer.slots ≤ limit ∧ ∀ id, buffer.highlighter.breaks.contains id = true → id < limit := by
  have begins : (ofText text grammar config).Compact limit := compact_ofText held usable spaced short
  have compact := (begins.run small allowed).2 went
  exact ⟨compact.slots, fun _ live => compact.lt_of_contains live⟩

/-- **There always are numbers for the breaks of texts that are not too long**, if breaks are spaced. -/
theorem allNumbered_of_short (short : text.size < 2 ^ 32)
    (allowed : AllAllowed Usable (2 ^ 32) text operations) :
    (ofText text grammar config).AllNumbered operations := by
  have begins : (ofText text grammar config).Compact (2 ^ 32) := compact_ofText held usable spaced short
  exact (begins.run le_rfl allowed).1

end Runs

end Highlight.Buffer
