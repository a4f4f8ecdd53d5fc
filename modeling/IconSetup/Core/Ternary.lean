/-
SQL's three-valued logic. A condition is TRUE, FALSE or unknown; unknown is what NULL is as a condition, so a
condition is an `Option Bool` with `none` for unknown.

- AND is FALSE as soon as one side is, OR is TRUE as soon as one side is, and a comparison with NULL is unknown.
- WHERE and ON keep a row only when the condition is TRUE (`holds`); CHECK refuses a value only when it is FALSE
  (`passes`). The two differ exactly on unknown.
- `passes_or_unknown`: `c OR NULL` is never FALSE, so as a CHECK it refuses nothing, whatever `c` is.
- `x = ANY (arr)` (`eqAny`) is TRUE iff some element of the array is non-null and equal to `x`.
-/
import Mathlib.Tactic

namespace IconSetup.Ternary

abbrev Tri := Option Bool

def and3 : Tri → Tri → Tri
  | some false, _ => some false
  | _, some false => some false
  | some true, some true => some true
  | _, _ => none

def or3 : Tri → Tri → Tri
  | some true, _ => some true
  | _, some true => some true
  | some false, some false => some false
  | _, _ => none

variable {α β : Type*}

/-- a comparison operator on nullable operands -/
def cmp (r : α → β → Bool) : Option α → Option β → Tri
  | some a, some b => some (r a b)
  | _, _ => none

def eq3 [DecidableEq α] : Option α → Option α → Tri := cmp fun a b => decide (a = b)

/-- what WHERE and ON ask of a condition -/
def holds (c : Tri) : Bool := c == some true

/-- what CHECK asks of a condition -/
def passes (c : Tri) : Bool := c != some false

@[simp] theorem holds_some (b : Bool) : holds (some b) = b := by cases b <;> rfl

@[simp] theorem holds_none : holds none = false := rfl

theorem passes_or_unknown (c : Tri) : passes (or3 c none) = true := by
  rcases c with _ | _ | _ <;> rfl

@[simp] theorem holds_eq3 [DecidableEq α] (x y : Option α) : holds (eq3 x y) = true ↔ ∃ a, x = some a ∧ y = some a := by
  cases x <;> cases y <;> simp [eq3, cmp, eq_comm]

/-- `x = ANY (arr)`: the OR of `x = e` over the elements; unknown when the array itself is NULL -/
def eqAny [DecidableEq α] (x : Option α) : Option (List (Option α)) → Tri
  | none => none
  | some arr => arr.foldr (fun e c => or3 (eq3 x e) c) (some false)

theorem holds_or3 (c d : Tri) : holds (or3 c d) = true ↔ holds c = true ∨ holds d = true := by
  rcases c with _ | _ | _ <;> rcases d with _ | _ | _ <;> decide

theorem holds_eqAny [DecidableEq α] (a : α) (arr : List (Option α)) :
    holds (eqAny (some a) (some arr)) = true ↔ some a ∈ arr := by
  simp only [eqAny]
  induction arr with
  | nil => simp
  | cons e arr ih =>
    rw [List.foldr_cons, holds_or3, ih, holds_eq3, List.mem_cons]
    simp [eq_comm]

/-- a nullable left side is unknown to every element -/
theorem holds_eqAny_iff [DecidableEq α] (x : Option α) (arr : List (Option α)) :
    holds (eqAny x (some arr)) = true ↔ ∃ a, x = some a ∧ some a ∈ arr := by
  cases x with
  | none =>
    have hnone : eqAny (none : Option α) (some arr) ≠ some true := by
      induction arr with
      | nil => simp [eqAny]
      | cons e arr ih =>
        intro h
        have h' := (holds_or3 (eq3 none e) (eqAny none (some arr))).1 (by simpa [holds, eqAny] using h)
        rcases h' with h' | h'
        · simp at h'
        · exact ih (by simpa [holds] using h')
    simp [holds, hnone]
  | some a => simp [holds_eqAny]

end IconSetup.Ternary
