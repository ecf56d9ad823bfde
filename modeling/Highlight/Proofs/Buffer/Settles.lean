/-
**A slice of work ends just if breaks are spaced.**

The settings of a highlighter can be made with a distance of zero between checkpoints, since a file of
settings is taken as it is, where `Config.withSpacing` makes it one:

* `Highlighter.process_withReparseRange`, `Highlighter.edit_withReparseRange`: the range for guesses has no
  part in work and edits;
* `Config.Settles`: after any operations a slice of work without a time limit leaves nothing to do;
* `Config.settles_iff`: **that is so just if breaks are spaced**;
* `Config.exists_read_not_settles`: there is a file of settings under which it is not.
-/

import Highlight.Proofs.Buffer.Operations
import Highlight.Json.Documents

namespace Highlight

/-! ### The range for guesses -/

namespace Highlighter

/-- The highlighter with another range for guesses. -/
def withReparseRange (highlighter : Highlighter) (range : Nat) : Highlighter :=
  { highlighter with config := highlighter.config.withReparseRange range }

/-- The range for guesses has no part in work. -/
theorem process_withReparseRange (highlighter : Highlighter) (range : Nat) (text : Text)
    (deadline : Deadline) :
    (highlighter.withReparseRange range).process text deadline =
      (fun (scanned, after) => (scanned, after.withReparseRange range)) <$>
        highlighter.process text deadline := by
  unfold process
  by_cases pending : highlighter.needsProcessing = true
  · have pendingToo : (highlighter.withReparseRange range).needsProcessing = true := pending
    rw [if_neg (not_not.mpr pending), if_neg (not_not.mpr pendingToo)]
    simp only [map_bind]
    refine bind_congr fun unit => bind_congr fun value => bind_congr fun outcome => ?_
    obtain ⟨⟨breaks, frontier, restartEnd, looks, interrupt⟩, state, ending⟩ := outcome
    simp only
    split
    · rw [map_bind]
      rfl
    · rfl
    · rfl
  · have idle : ¬ (highlighter.withReparseRange range).needsProcessing = true := pending
    rw [if_pos pending, if_pos idle]
    rfl

/-- The range for guesses has no part in edits. -/
theorem edit_withReparseRange (highlighter : Highlighter) (range : Nat) (change : Change) :
    (highlighter.withReparseRange range).edit change =
      (fun after => after.withReparseRange range) <$> highlighter.edit change := by
  unfold edit
  simp only [map_bind]
  refine bind_congr fun reach => bind_congr fun restart => bind_congr fun position =>
    bind_congr fun rewound => bind_congr fun stale => bind_congr fun kept => ?_
  cases stale with
  | none => cases kept <;> simp only [map_bind] <;> rfl
  | some first =>
    simp only
    split <;> cases kept <;> simp only [map_bind] <;> rfl

end Highlighter

/-! ### Slices without a time limit -/

namespace Config

/-- After any operations on any text, under grammars whose sizes are not too large for the settings, a slice
of work without a time limit ends and leaves nothing to do, as long as there are numbers for all places of
the text or for all breaks that are stored. -/
def Settles (config : Config) : Prop :=
  ∀ {text : Text} {grammar : Grammar} {limit : Nat} {operations : List Buffer.Operation}
    {buffer : Buffer}, text.IsUtf8 → text.size < limit → limit ≤ 2 ^ 63 → config.Admits grammar →
      Buffer.AllAllowed config.Admits limit text operations →
        limit ≤ 2 ^ 32 ∨
            (Buffer.ofText text grammar config).RoomForAll (operations ++ [.process .never]) →
          Buffer.run operations (.ofText text grammar config) = .ok buffer →
            ∃ scanned after, buffer.process .never = .ok (scanned, after) ∧
              after.needsProcessing = false

/-- Where breaks are not spaced, a slice does not end that comes to an old break inside of unmatched text.
In this text that is the break behind the letters, once the bracket before them has been deleted. -/
theorem stalled_brackets :
    (do
      let worked ← (Highlighter.ofSize .brackets ⟨0, 1024⟩ 5).process (.ofString "(abc)") .never
      let edited ← worked.2.edit ⟨0, 1, -1⟩
      return (edited.process (.ofString "abc)") .never).map Prod.fst) =
      (.ok (.error .stalled) : Except Fault (Except Fault Nat)) := by decide +kernel

/-- Where breaks are not spaced, a buffer comes to that text with that work. -/
theorem exists_run_stalled {config : Config} (unspaced : config.spacing = 0) :
    ∃ edited : Highlighter, Buffer.run [.process .never, .replace 0 1 ""]
        (.ofText (.ofString "(abc)") .brackets config) =
          .ok ⟨.ofString "abc)", edited.withReparseRange config.reparseRange, .empty, [], 0⟩ ∧
      (edited.process (.ofString "abc)") .never).map Prod.fst = .error .stalled := by
  obtain ⟨⟨scanned, worked⟩, processed, rest⟩ := Fault.bind_eq_ok.mp stalled_brackets
  obtain ⟨edited, moved, stalled⟩ := Fault.bind_eq_ok.mp rest
  refine ⟨edited, ?_, Except.ok.inj stalled⟩
  have before : Highlighter.ofSize .brackets config 5 =
      (Highlighter.ofSize .brackets ⟨0, 1024⟩ 5).withReparseRange config.reparseRange := by
    rcases config with ⟨spacing, range⟩
    cases unspaced
    rfl
  have first : (Buffer.ofText (.ofString "(abc)") .brackets config).process .never =
      .ok (scanned, ⟨.ofString "(abc)", worked.withReparseRange config.reparseRange, .empty, [],
        0⟩) := by
    have processedToo : (Highlighter.ofSize .brackets config 5).process (.ofString "(abc)") .never =
        .ok (scanned, worked.withReparseRange config.reparseRange) := by
      rw [before, Highlighter.process_withReparseRange, processed]
      rfl
    unfold Buffer.process Buffer.ofText
    simp only [show (Text.ofString "(abc)").size = 5 from rfl, processedToo]
    rfl
  have replaced : (Text.ofString "(abc)").replace 0 1 "" =
      .ok (.ofString "abc)", ⟨0, 1, -1⟩) := by decide +kernel
  have told : (worked.withReparseRange config.reparseRange).edit ⟨0, 1, -1⟩ =
      .ok (edited.withReparseRange config.reparseRange) := by
    rw [Highlighter.edit_withReparseRange, moved]
    rfl
  have second : Buffer.replace ⟨.ofString "(abc)", worked.withReparseRange config.reparseRange,
      .empty, [], 0⟩ 0 1 "" = .ok (⟨0, 1, -1⟩,
        ⟨.ofString "abc)", edited.withReparseRange config.reparseRange, .empty, [], 0⟩) :=
    Buffer.replace_of_parts replaced told rfl
  have firstGoes : Buffer.Operation.apply (.ofText (.ofString "(abc)") .brackets config)
      (.process .never) = .ok ⟨.ofString "(abc)", worked.withReparseRange config.reparseRange, .empty,
        [], 0⟩ := by
    rw [Buffer.Operation.apply, first]
    rfl
  have secondGoes : Buffer.Operation.apply ⟨.ofString "(abc)",
      worked.withReparseRange config.reparseRange, .empty, [], 0⟩ (.replace 0 1 "") =
      .ok ⟨.ofString "abc)", edited.withReparseRange config.reparseRange, .empty, [], 0⟩ := by
    rw [Buffer.Operation.apply, second]
    rfl
  rw [Buffer.run_cons firstGoes, Buffer.run_cons secondGoes]
  rfl

/-- Where breaks are not spaced, a buffer can be led to where a slice of work does not end. -/
theorem not_settles {config : Config} (unspaced : config.spacing = 0) : ¬ config.Settles := by
  intro settles
  obtain ⟨edited, ran, stalled⟩ := exists_run_stalled unspaced
  have admits : config.Admits .brackets := by
    refine ⟨⟨by decide, fun _ => ?_⟩, Grammar.wellFormed_brackets, Grammar.lawful_brackets⟩
    rw [unspaced]
    decide
  have allowed : Buffer.AllAllowed config.Admits (2 ^ 32) (.ofString "(abc)")
      [.process .never, .replace 0 1 ""] :=
    ⟨trivial, ⟨by decide +kernel, by decide +kernel⟩, trivial⟩
  obtain ⟨count, after, went, -⟩ :=
    settles (Text.isUtf8_ofString "(abc)") (by decide) (by decide) admits allowed (Or.inl le_rfl) ran
  obtain ⟨ended, -, -⟩ := Buffer.process_eq_ok went
  simp only at ended
  rw [Highlighter.process_withReparseRange] at ended
  cases outcome : edited.process (.ofString "abc)") .never with
  | ok result =>
    rw [outcome] at stalled
    cases stalled
  | error fault =>
    rw [outcome] at ended
    cases ended

/-- Where breaks are spaced, each checkpoint of a slice is behind the one before it. -/
theorem settles_of_spaced {config : Config} (spaced : 1 ≤ config.spacing) : config.Settles := by
  intro text grammar limit operations buffer utf8 short small admits allowed room ran
  have stands : (Buffer.ofText text grammar config).Stands config :=
    Buffer.stands_ofText ⟨utf8, short.trans_le small⟩ admits
  have split := room.imp_right fun all =>
    (Buffer.roomForAll_append.mp all).imp_right fun further => further buffer ran
  have reached := Buffer.run_ends stands (fun _ admits => admits) short small allowed
    (split.imp (⟨spaced, ·⟩) And.left)
  rw [ran] at reached
  obtain ⟨standsHere, sameText⟩ := reached
  have shortHere : buffer.size < limit := by
    unfold Buffer.size
    rw [sameText]
    exact Buffer.size_textAfter_lt short allowed
  obtain ⟨behind, value, ahead, highlighter⟩ := standsHere.highlighter
  have ends := standsHere.process highlighter.frontierPosition_eq shortHere .never fun pending =>
    split.imp (⟨spaced, ·⟩) fun all => standsHere.config ▸ all.2.1 pending
  obtain ⟨⟨scanned, after⟩, went, sliced⟩ := ends.exists_ok fun fault stalls => by
    have unspaced := stalls.1
    omega
  exact ⟨scanned, after, went, Bool.not_eq_true _ ▸ fun working => (sliced.left working).1 rfl⟩

/-- **Slices of work without a time limit end just if breaks are spaced**, and then nothing is left to
do. -/
theorem settles_iff (config : Config) : config.Settles ↔ 1 ≤ config.spacing := by
  refine ⟨fun settles => ?_, settles_of_spaced⟩
  by_contra unspaced
  exact not_settles (by omega) settles

/-- Settings that are made by the builder are spaced. -/
theorem settles_withSpacing (config : Config) (value : Nat) : (config.withSpacing value).Settles :=
  settles_of_spaced (le_max_right value 1)

/-- **A file of settings is taken as it is**, and slices of work may not end under it. -/
theorem exists_read_not_settles : ∃ bytes config, read bytes = .ok config ∧ ¬ config.Settles := by
  refine ⟨"\x7b\"breakpoint_spacing\":0\x7d".toUTF8, ⟨0, 1024⟩, rfl, not_settles rfl⟩

end Config

end Highlight
