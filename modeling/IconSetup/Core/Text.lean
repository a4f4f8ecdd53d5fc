/-
The type varchar(n) as a column meets it: a text of at most n characters is stored as it is, a longer one is cut to n
when everything past the n-th character is a space, and refused otherwise. NULL stays NULL.

- `varchar_of_le`: a text that fits is stored unchanged.
- `castVarchar_iff`: a value is stored iff it fits (`Fits`), and then as its first n characters (`cut`).
-/
import Mathlib.Tactic
import IconSetup.Core.Fallible

namespace IconSetup.Text

open IconSetup.Fallible

def varchar (n : ℕ) (s : String) : Option String :=
  if s.toList.length ≤ n then some s
  else if (s.toList.drop n).all (· = ' ') then some (String.ofList (s.toList.take n)) else none

/-- a nullable value on its way into a varchar(n) column -/
def castVarchar (n : ℕ) : Option String → Option (Option String) := strict (varchar n)

theorem varchar_of_le {n : ℕ} {s : String} (h : s.toList.length ≤ n) : varchar n s = some s := by
  rw [varchar, if_pos h]

/-- NULL, or a text with nothing but spaces past the n-th character -/
def Fits (n : ℕ) (v : Option String) : Prop := ∀ s ∈ v, ∀ c ∈ s.toList.drop n, c = ' '

/-- the first n characters -/
def cut (n : ℕ) (v : Option String) : Option String := v.map fun s => String.ofList (s.toList.take n)

instance (n : ℕ) : (v : Option String) → Decidable (Fits n v)
  | none => isTrue fun _ hs => by cases hs
  | some s => decidable_of_iff ((s.toList.drop n).all (· = ' ') = true) (by simp [Fits])

theorem castVarchar_iff {n : ℕ} {v r : Option String} : castVarchar n v = some r ↔ Fits n v ∧ r = cut n v := by
  cases v with
  | none => simp [castVarchar, strict, Fits, cut, eq_comm]
  | some s =>
    simp only [castVarchar, strict, varchar, Fits, cut, Option.mem_some_iff, forall_eq', Option.map_some]
    split_ifs with hle hspaces
    · have hdrop : s.toList.drop n = [] := List.drop_eq_nil_of_le hle
      have htake : s.toList.take n = s.toList := List.take_of_length_le hle
      simp [hdrop, htake, eq_comm]
    · have hall : ∀ c ∈ s.toList.drop n, c = ' ' := by simpa using hspaces
      rw [Option.map_some, Option.some.injEq, eq_comm (a := r)]
      exact (and_iff_right hall).symm
    · have hnot : ¬ ∀ c ∈ s.toList.drop n, c = ' ' := by simpa using hspaces
      simp [hnot]

end IconSetup.Text
