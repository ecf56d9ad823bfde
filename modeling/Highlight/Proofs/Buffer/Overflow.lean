/-
**Which sizes never overflow.**

The sizes of grammars and settings are taken as they are, and sums and products are formed of them. Breaks
that are not spaced may be stored as often as a deadline allows, so that operations that may need more
slots than there are numbers are left out:

* `Config.NeverOverflows`: no operation on a text that stays shorter than a limit forms one that is too
  large;
* `Buffer.run_replace_eq_overflow`, `Buffer.run_styles_eq_overflow`: where a grammar is not handled, the
  first edit or the first question fails;
* `Config.neverOverflows_iff`: **just the grammars that the settings handle never lead to an overflow**,
  for any limit that admits a text of a single byte;
* `Config.not_neverOverflows_compiled`: there are others, since a grammar may name any size.
-/

import Highlight.Proofs.Buffer.Operations
import Highlight.Proofs.Query.Start

namespace Highlight

variable {config : Config} {grammar : Grammar}

/-- Whatever is done with a text that stays shorter than `limit` bytes, and with any of the grammars that
are admitted, no sum or product of sizes is too large, as long as there are numbers for all breaks. -/
def Config.NeverOverflows (admitted : Grammar → Prop) (limit : Nat) (config : Config) : Prop :=
  ∀ {text : Text} {grammar : Grammar} {operations : List Buffer.Operation},
    text.IsUtf8 → text.size < limit → admitted grammar →
      Buffer.AllAllowed admitted limit text operations →
        0 < config.spacing ∧ limit ≤ BreakIndex.idRange ∨
            (Buffer.ofText text grammar config).RoomForAll operations →
          Buffer.run operations (.ofText text grammar config) ≠ .error .overflow

namespace Buffer

/-! ### Sizes that are too large -/

theorem roomForAll_single {operation : Operation} {buffer : Buffer}
    (few : buffer.slots + operation.stores buffer.highlighter.config buffer.text ≤ BreakIndex.idRange) :
    buffer.RoomForAll [operation] := by
  refine ⟨fun _ => few, ?_⟩
  split <;> trivial

theorem run_single {operation : Operation} {buffer : Buffer} {fault : Fault}
    (failed : operation.apply buffer = .error fault) : run [operation] buffer = .error fault := by
  rw [run, failed]
  rfl

/-- **An edit fails** if regexes may see as much of the text as the largest size. -/
theorem run_replace_eq_overflow (exceeds : ¬ grammar.maxExtend < maxSize) :
    run [.replace 0 0 "a"] (ofText (.ofString "") grammar config) = .error .overflow := by
  have replaced : (Text.ofString "").replace 0 0 "a" = .ok (.ofString "a", ⟨0, 0, 1⟩) := by
    decide +kernel
  have failed : (Highlighter.ofSize grammar config (Text.ofString "").size).edit ⟨0, 0, 1⟩ =
      .error .overflow := by
    have reach : Highlighter.reach grammar = .error .overflow := checkedAdd_eq_overflow exceeds
    unfold Highlighter.edit
    simp only [Highlighter.ofSize, Highlighter.reset, reach]
    rfl
  refine run_single ?_
  unfold Operation.apply replace ofText
  simp only [replaced, Fault.ok_bind, failed]
  rfl

/-- **A question fails** if there are patterns and the distance that it may have from a checkpoint is too
large, or four times that distance, or the number of bytes that are searched at a time. -/
theorem run_styles_eq_overflow (wellFormed : grammar.WellFormed) (lawful : grammar.Lawful)
    (patterned : grammar.hasPatterns = true)
    (exceeds : ¬ 12 * max config.spacing grammar.maxExtend ≤ maxSize) :
    run [.styles 0 1] (ofText (.ofString "a") grammar config) = .error .overflow := by
  have held : (Text.ofString "a").Held := ⟨Text.isUtf8_ofString _, by decide⟩
  suffices failed : StyleCache.empty.styles (.ofString "a")
      (.ofSize grammar config (Text.ofString "a").size) 0 1 = .error .overflow by
    refine run_single ?_
    unfold Operation.apply styles ofText
    simp only [failed]
    rfl
  by_cases distance : 3 * max config.spacing grammar.maxExtend ≤ maxSize
  · have far : config.maxDistance grammar = .ok (3 * max config.spacing grammar.maxExtend) :=
      checkedMul_eq_ok distance
    rw [StyleCache.styles_start (Highlighter.begins_ofSize grammar config _) patterned far (by decide)
      (by decide)]
    unfold StyleCache.serve
    by_cases window : 4 * config.spacing ≤ maxSize
    · -- The largest size is no multiple of four, so that there is room for the byte of the text.
      have room : (Text.ofString "a").size + 4 * config.spacing ≤ maxSize := by
        have size : (Text.ofString "a").size = 1 := rfl
        unfold maxSize at *
        omega
      obtain ⟨longer, extended⟩ : ∃ longer, StyleCache.extend StyleCache.fromStart (.ofString "a")
          (.ofSize grammar config (Text.ofString "a").size) (min 1 (Text.ofString "a").size) =
            .ok longer :=
        StyleCache.extend_eq_ok wellFormed lawful.bounded held
          (StyleCache.aligned_fromStart grammar _) room _
      have trimmed : StyleCache.trim longer 0 (3 * max config.spacing grammar.maxExtend) =
          .error .overflow := by
        unfold StyleCache.trim
        rw [checkedMul_eq_overflow (by omega)]
        rfl
      rw [extended, Fault.ok_bind, trimmed]
      rfl
    · have unit : config.windowUnit = .error .overflow := by
        unfold Config.windowUnit
        rw [checkedMul_eq_overflow window]
        rfl
      have short : StyleCache.fromStart.row.stop < min 1 (Text.ofString "a").size := by decide
      unfold StyleCache.extend
      rw [if_pos short]
      simp only [Highlighter.ofSize, Highlighter.reset, unit]
      rfl
  · have far : config.maxDistance grammar = .error .overflow := checkedMul_eq_overflow distance
    unfold StyleCache.styles
    simp only [Highlighter.ofSize, Highlighter.reset, patterned, far]
    rfl

end Buffer

namespace Config

/-! ### Sizes that are not -/

/-- A grammar that never leads to an overflow is handled. -/
theorem handles_of_never {admitted : Grammar → Prop} {limit : Nat} (some : 1 < limit)
    (never : config.NeverOverflows admitted limit) (wellFormed : grammar.WellFormed)
    (lawful : grammar.Lawful) (admits : admitted grammar) : config.Handles grammar := by
  constructor
  · by_contra exceeds
    have allowed : Buffer.AllAllowed admitted limit (.ofString "") [.replace 0 0 "a"] :=
      ⟨⟨by decide, some⟩, trivial⟩
    exact never (Text.isUtf8_ofString "") (Nat.zero_lt_of_lt some) admits allowed
      (Or.inr (Buffer.roomForAll_single (show 1 + 0 ≤ BreakIndex.idRange by decide)))
      (Buffer.run_replace_eq_overflow exceeds)
  · intro patterned
    by_contra exceeds
    have allowed : Buffer.AllAllowed admitted limit (.ofString "a") [.styles 0 1] :=
      ⟨trivial, trivial⟩
    exact never (Text.isUtf8_ofString "a") some admits allowed
      (Or.inr (Buffer.roomForAll_single (show 1 + 0 ≤ BreakIndex.idRange by decide)))
      (Buffer.run_styles_eq_overflow wellFormed lawful patterned exceeds)

/-- **Operations on short texts never overflow just if the settings handle the grammars**: one byte more
than regexes see of the text is a size, and, where there are patterns, so is four times the distance that
questions may have from checkpoints. -/
theorem neverOverflows_iff {admitted : Grammar → Prop} {limit : Nat} (some : 1 < limit)
    (small : limit ≤ 2 ^ 63)
    (usable : ∀ grammar, admitted grammar → grammar.WellFormed ∧ grammar.Lawful) :
    config.NeverOverflows admitted limit ↔
      ∀ grammar, admitted grammar → config.Handles grammar := by
  constructor
  · intro never grammar admits
    obtain ⟨wellFormed, lawful⟩ := usable grammar admits
    exact handles_of_never some never wellFormed lawful admits
  · intro handles text grammar operations utf8 short admits allowed room overflows
    have admitsAll : ∀ grammar, admitted grammar → config.Admits grammar := fun grammar admits =>
      ⟨handles grammar admits, (usable grammar admits).1, (usable grammar admits).2⟩
    have stands : (Buffer.ofText text grammar config).Stands config :=
      Buffer.stands_ofText ⟨utf8, short.trans_le small⟩ (admitsAll grammar admits)
    have ends := Buffer.run_ends stands admitsAll short small allowed room
    rw [overflows] at ends
    obtain ⟨operation, -, -, -, other⟩ := ends
    cases other

theorem neverOverflows_brackets :
    (1 < 2 ^ 32 ∧ 2 ^ 32 ≤ 2 ^ 63 ∧
      ∀ grammar, grammar = Grammar.brackets → grammar.WellFormed ∧ grammar.Lawful) ∧
      usual.NeverOverflows (· = .brackets) (2 ^ 32) := by
  have usable : ∀ grammar, grammar = Grammar.brackets → grammar.WellFormed ∧ grammar.Lawful := by
    rintro grammar rfl
    exact ⟨Grammar.wellFormed_brackets, Grammar.lawful_brackets⟩
  refine ⟨⟨by decide, by decide, usable⟩, (neverOverflows_iff (by decide) (by decide) usable).mpr ?_⟩
  rintro grammar rfl
  exact ⟨by decide, fun _ => by decide⟩

/-- **There are compiled grammars that no settings handle**: a grammar may let its regexes see any size of
the text. -/
theorem exists_compiled_not_handles (config : Config) (engine : Regex.Engine) :
    ∃ source grammar, Grammar.Source.compile source engine = .ok grammar ∧ grammar.Lawful ∧
      ¬ config.Handles grammar := by
  have compiled : Grammar.Source.compile
      { Grammar.Source.named "wide" with maxExtend := some maxSize } engine =
      .ok { Grammar.plain "wide" with
        patterns := #[Pattern.blank rootPattern maxSize], maxExtend := maxSize } := rfl
  exact ⟨_, _, compiled, Grammar.lawful_of_no_regex rfl,
    fun handles => absurd handles.reach (lt_irrefl maxSize)⟩

/-- Compiled grammars may lead to an overflow, whatever the settings are. -/
theorem not_neverOverflows_compiled (config : Config) (engine : Regex.Engine) {limit : Nat}
    (some : 1 < limit) :
    ¬ config.NeverOverflows (fun grammar =>
      (∃ source : Grammar.Source, source.compile engine = .ok grammar) ∧ grammar.Lawful) limit := by
  intro never
  obtain ⟨source, grammar, compiled, lawful, unhandled⟩ := exists_compiled_not_handles config engine
  exact unhandled (handles_of_never some never (Grammar.wellFormed_of_compile compiled) lawful
    ⟨⟨source, compiled⟩, lawful⟩)

end Config

end Highlight
