/-! # Faults

Everything the mode computes is defined for every text and every state, with two exceptions.  A
column is a number below `2 ^ 32`, so counting may run **past the largest column**; and a host that
addresses a line by byte offset may name an offset that **splits a character**.  Both end the
operation; nothing else does. -/

namespace EditorMode

/-- Why an operation of the mode has no result. -/
inductive Fault where
  /-- A column, an indent or their sum exceeds the largest column. -/
  | columnOverflow
  /-- The byte offset lies inside a character of the line. -/
  | splitCharacter (offset : Nat)
  deriving DecidableEq, Repr

namespace Fault

/-- The wording a host sees. -/
def message : Fault → String
  | columnOverflow => "attempt to add with overflow"
  | splitCharacter offset => "offset " ++ toString offset ++ " splits a character"

/-! ## Computing in sequence -/

variable {α β : Type}

/-- Two computations in sequence succeed exactly if both do. -/
theorem bind_eq_ok {x : Except Fault α} {f : α → Except Fault β} {b : β} :
    x >>= f = .ok b ↔ ∃ a, x = .ok a ∧ f a = .ok b := by
  cases x <;> simp [bind, Except.bind]

/-- Returning a value faults nowhere. -/
theorem pure_eq_ok {a b : α} : (pure a : Except Fault α) = .ok b ↔ a = b := by
  simp [pure, Except.pure]

/-- Changing a result takes one. -/
theorem map_eq_ok {x : Except Fault α} {f : α → β} {b : β} :
    f <$> x = .ok b ↔ ∃ a, x = .ok a ∧ f a = b := by
  cases x <;> simp [Functor.map, Except.map]

end Fault
end EditorMode
