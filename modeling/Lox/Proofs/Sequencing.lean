import Mathlib.Data.List.Nodup
import Mathlib.Data.Nat.Basic
import Mathlib.Order.Basic
import Mathlib.Tactic.Common

/-!
# Sequencing of effects

Parsers and computations of the machine are run on a state and leave one
behind, whether they succeed or fail.  A sequence runs its second part in the
state that the first has left, unless the first fails.
-/

namespace Lox

variable {ε σ α β : Type} {part : EStateM ε σ α} {rest : α → EStateM ε σ β}
variable {state after : σ} {result : α} {halt : ε}

theorem bind_of_ok (h : part state = .ok result after) :
    (part >>= rest) state = rest result after := by
  change EStateM.bind part rest state = _
  rw [EStateM.bind, h]

theorem bind_of_error (h : part state = .error halt after) :
    (part >>= rest) state = .error halt after := by
  change EStateM.bind part rest state = _
  rw [EStateM.bind, h]

/-- A sequence that succeeds has succeeded in both of its parts. -/
theorem exists_of_bind_ok {last : σ} {value : β}
    (h : (part >>= rest) state = .ok value last) :
    ∃ result after, part state = .ok result after ∧ rest result after = .ok value last := by
  cases hresult : part state with
  | ok result after => exact ⟨result, after, rfl, (bind_of_ok hresult).symm.trans h⟩
  | error halt after =>
      rw [bind_of_error hresult] at h
      cases h

theorem map_of_ok {f : α → β} (h : part state = .ok result after) :
    (f <$> part) state = .ok (f result) after := by
  change EStateM.map f part state = _
  rw [EStateM.map, h]

theorem map_of_error {f : α → β} (h : part state = .error halt after) :
    (f <$> part) state = .error halt after := by
  change EStateM.map f part state = _
  rw [EStateM.map, h]

/-- The state in which a computation ends, however it ends. -/
def finalState : EStateM.Result ε σ α → σ
  | .ok _ after => after
  | .error _ after => after

end Lox
