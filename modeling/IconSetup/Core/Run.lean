/-
Runs of a machine given by a total step function `step : S → O → S`. An operation that is not enabled in a state
leaves the state as it is, so every list of operations is a run and "any interleaving" is "any list".

- `run_inv`: a property that holds at the start and is kept by every step holds after every run.
- `run_inv_along`: the same, for runs whose every step meets a condition `C` on the state before it (`Along`).
- `along_append`: a condition along `a ++ b` is the condition along `a` and, from where `a` ends, along `b`.
- `along_iff`: a condition along a run is the condition on each operation, in the state that the ones before it leave.
- `run_mono`: a preorder that every step respects is respected by every run.
-/
import Mathlib.Tactic

namespace IconSetup.Run

variable {S O : Type*}

def run (step : S → O → S) (s : S) (ops : List O) : S := ops.foldl step s

@[simp] theorem run_nil (step : S → O → S) (s : S) : run step s [] = s := rfl

@[simp] theorem run_cons (step : S → O → S) (s : S) (o : O) (ops : List O) :
    run step s (o :: ops) = run step (step s o) ops := rfl

@[simp] theorem run_append (step : S → O → S) (s : S) (a b : List O) :
    run step s (a ++ b) = run step (run step s a) b := by
  simp [run, List.foldl_append]

/-- every operation of the run is taken in a state in which it meets `C` -/
def Along (step : S → O → S) (C : S → O → Prop) : S → List O → Prop
  | _, [] => True
  | s, o :: ops => C s o ∧ Along step C (step s o) ops

theorem along_append (step : S → O → S) (C : S → O → Prop) (s : S) (a b : List O) :
    Along step C s (a ++ b) ↔ Along step C s a ∧ Along step C (run step s a) b := by
  induction a generalizing s with
  | nil => simp [Along]
  | cons o a ih => simp only [List.cons_append, Along, ih, run_cons, and_assoc]

theorem along_iff {step : S → O → S} {C : S → O → Prop} {s : S} {ops : List O} :
    Along step C s ops ↔ ∀ before o after, ops = before ++ o :: after → C (run step s before) o := by
  induction ops generalizing s with
  | nil => simp [Along]
  | cons o ops ih =>
    refine ⟨fun h before o' after he => ?_, fun h => ⟨h [] o ops rfl, ih.2 fun before o' after he => ?_⟩⟩
    · rcases List.cons_eq_append_iff.1 he with ⟨rfl, hcons⟩ | ⟨before', rfl, hops⟩
      · obtain ⟨rfl, -⟩ := List.cons_eq_cons.1 hcons
        exact h.1
      · exact ih.1 h.2 before' o' after hops
    · exact h (o :: before) o' after (by rw [he, List.cons_append])

instance decidableAlong (step : S → O → S) (C : S → O → Prop) [∀ s o, Decidable (C s o)] (s : S) (ops : List O) :
    Decidable (Along step C s ops) :=
  match ops with
  | [] => isTrue trivial
  | o :: ops =>
    have := decidableAlong step C (step s o) ops
    inferInstanceAs (Decidable (C s o ∧ Along step C (step s o) ops))

theorem run_inv_along {step : S → O → S} {C : S → O → Prop} {P : S → Prop}
    (hstep : ∀ s o, P s → C s o → P (step s o)) (s : S) (ops : List O) (hs : P s) (hC : Along step C s ops) :
    P (run step s ops) := by
  induction ops generalizing s with
  | nil => exact hs
  | cons o ops ih => exact ih _ (hstep s o hs hC.1) hC.2

theorem run_inv {step : S → O → S} {P : S → Prop} (hstep : ∀ s o, P s → P (step s o)) (s : S) (ops : List O)
    (hs : P s) : P (run step s ops) := by
  induction ops generalizing s with
  | nil => exact hs
  | cons o ops ih => exact ih _ (hstep s o hs)

theorem run_mono {step : S → O → S} {P : S → Prop} {le : S → S → Prop} (hP : ∀ s o, P s → P (step s o))
    (hrefl : ∀ s, le s s) (htrans : ∀ a b c, le a b → le b c → le a c) (hle : ∀ s o, P s → le s (step s o))
    (s : S) (ops : List O) (hs : P s) : le s (run step s ops) := by
  induction ops generalizing s with
  | nil => exact hrefl s
  | cons o ops ih => exact htrans _ _ _ (hle s o hs) (ih _ (hP s o hs))

end IconSetup.Run
