/-
**Operations that went well.**

An operation in several steps went well if each of them did:

* `Fault.bind_eq_ok`, `Fault.ok_bind`: the outcome of the first step and that of the rest;
* `Fault.bind_eq_error`: which of the two failed otherwise;
* `Fault.map_eq_ok`: the same for an outcome that is changed;
* `Fault.Ends`: what is true of the outcome, and which faults there may be otherwise;
* `checkedAdd_eq_ok_iff`, `checkedSub_eq_ok_iff`: what the checked operations give when they do;
* `checkedAdd_eq_overflow`, `checkedMul_eq_overflow`: the fault where they do not.
-/

import Mathlib.Order.Basic
import Highlight.Fault

namespace Highlight

namespace Fault

variable {ε α β : Type}

/-- Two steps went well if the first one did and the second one did with its outcome. -/
theorem bind_eq_ok {first : Except ε α} {second : α → Except ε β} {result : β} :
    (first >>= second) = .ok result ↔ ∃ value, first = .ok value ∧ second value = .ok result := by
  cases first with
  | error fault =>
    constructor
    · intro failed
      cases failed
    · rintro ⟨value, failed, -⟩
      cases failed
  | ok value =>
    constructor
    · intro went
      exact ⟨value, rfl, went⟩
    · rintro ⟨found, same, went⟩
      cases same
      exact went

/-- Two steps fail if the first one does, or the second one with its outcome. -/
theorem bind_eq_error {first : Except ε α} {second : α → Except ε β} {failure : ε} :
    (first >>= second) = .error failure ↔
      first = .error failure ∨ ∃ value, first = .ok value ∧ second value = .error failure := by
  cases first with
  | error other =>
    constructor
    · intro failed
      cases failed
      exact Or.inl rfl
    · rintro (failed | ⟨value, went, -⟩)
      · cases failed
        rfl
      · cases went
  | ok value =>
    constructor
    · intro failed
      exact Or.inr ⟨value, rfl, failed⟩
    · rintro (failed | ⟨found, same, failed⟩)
      · cases failed
      · cases same
        exact failed

/-- A step that went well hands on its outcome. -/
theorem ok_bind (value : α) (second : α → Except ε β) : (.ok value >>= second) = second value :=
  rfl

theorem pure_eq_ok {value result : α} :
    (pure value : Except ε α) = .ok result ↔ value = result :=
  Except.ok.injEq value result ▸ Iff.rfl

/-- An operation whose outcome is changed went well if the operation did. -/
theorem map_eq_ok {first : Except ε α} {change : α → β} {result : β} :
    first.map change = .ok result ↔ ∃ value, first = .ok value ∧ change value = result := by
  cases first with
  | error fault =>
    constructor
    · intro failed
      cases failed
    · rintro ⟨value, failed, -⟩
      cases failed
  | ok value =>
    constructor
    · intro went
      cases went
      exact ⟨value, rfl, rfl⟩
    · rintro ⟨found, same, changed⟩
      cases same
      exact congrArg Except.ok changed

/-- An operation whose outcome can be told to be there went well. -/
theorem exists_of_toOption_map {first : Except ε α} {change : α → β} {result : β}
    (told : first.toOption.map change = some result) :
    ∃ value, first = .ok value ∧ change value = result := by
  cases first with
  | error fault => cases told
  | ok value => exact ⟨value, rfl, Option.some.inj told⟩

/-- An operation goes well, and then something is true of its result, or it ends in a fault that is
allowed. -/
def Ends (allowed : Fault → Prop) (result : α → Prop) : Except Fault α → Prop
  | .ok value => result value
  | .error fault => allowed fault

namespace Ends

variable {allowed : Fault → Prop} {result : α → Prop} {first : Except Fault α}

theorem bind (ends : Ends allowed result first) {second : α → Except Fault β} {final : β → Prop}
    (rest : ∀ value, result value → Ends allowed final (second value)) :
    Ends allowed final (first >>= second) := by
  cases first with
  | error fault => exact ends
  | ok value => exact rest value ends

theorem mono (ends : Ends allowed result first) {other : α → Prop}
    (implies : ∀ value, result value → other value) : Ends allowed other first := by
  cases first with
  | error fault => exact ends
  | ok value => exact implies value ends

/-- More faults may be allowed. -/
theorem weaken (ends : Ends allowed result first) {others : Fault → Prop}
    (implies : ∀ fault, allowed fault → others fault) : Ends others result first := by
  cases first with
  | error fault => exact implies fault ends
  | ok value => exact ends

theorem map {value : α → β} {final : β → Prop}
    (ends : Ends allowed (fun outcome => final (value outcome)) first) :
    Ends allowed final (first.map value) := by
  cases first with
  | error fault => exact ends
  | ok outcome => exact ends

/-- An operation goes well if no fault is allowed. -/
theorem exists_ok (ends : Ends allowed result first) (none : ∀ fault, ¬ allowed fault) :
    ∃ value, first = .ok value ∧ result value := by
  cases first with
  | error fault => exact absurd ends (none fault)
  | ok value => exact ⟨value, rfl, ends⟩

end Ends

end Fault

theorem checkedAdd_eq_ok_iff {left right sum : Nat} :
    checkedAdd left right = .ok sum ↔ left + right ≤ maxSize ∧ left + right = sum := by
  unfold checkedAdd
  split
  · rename_i fits
    simp [fits]
  · rename_i exceeds
    simp [exceeds]

theorem checkedSub_eq_ok_iff {left right difference : Nat} :
    checkedSub left right = .ok difference ↔ right ≤ left ∧ left - right = difference := by
  unfold checkedSub
  split
  · rename_i fits
    simp [fits]
  · rename_i exceeds
    simp [exceeds]

theorem checkedAdd_eq_overflow {left right : Nat} (exceeds : ¬ left + right ≤ maxSize) :
    checkedAdd left right = .error .overflow := if_neg exceeds

theorem checkedMul_eq_overflow {left right : Nat} (exceeds : ¬ left * right ≤ maxSize) :
    checkedMul left right = .error .overflow := if_neg exceeds

end Highlight
