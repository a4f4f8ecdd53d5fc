/-
scripts/rm_psql.sh: the loop that waits for a container to shut down and removes it.

NOW counts INTERVAL seconds for every turn, but the turn does not take them: the operand of `sleep` is the word
INTERVAL, without `$`, which is no number, so `sleep` fails at once. The clock is the time that the calls of `sleep`
take together.

- `run_waiting`: while the container runs or is built, NOW counts the turns and the clock stands still.
- `ends_cases`: the three ways in which every run ends, after at most 4322 turns.
- `right_iff`: a run is what it should be iff its first status is neither Running nor Building, so that it never waits.
-/
import Mathlib.Tactic
import IconSetup.Core.Shell

namespace IconSetup.RmPsql

open IconSetup.Shell (Chars)

/-! ## The script -/

def timeout : ℕ := 43200

def interval : ℕ := 10

def shutdown : Chars := "Shutdown".toList

def running : Chars := "Running".toList

def building : Chars := "Building".toList

/-- the number that an operand of `sleep` stands for -/
def seconds (operand : Chars) : Option ℕ :=
  if operand ≠ [] ∧ operand.all Char.isDigit then
    some (operand.foldl (fun n c => 10 * n + (c.toNat - '0'.toNat)) 0)
  else none

/-- the clock after `sleep operand`, which fails where the operand is no number -/
def sleep (operand : Chars) (clock : ℕ) : ℕ := clock + (seconds operand).getD 0

structure State where
  now : ℕ
  clock : ℕ
  /-- the times of the calls of `cf ic inspect` -/
  polls : List ℕ
  /-- how often `cf ic rm` was called -/
  removed : ℕ
  exit : Option ℕ
deriving DecidableEq, Repr

def start : State := ⟨0, 0, [], 0, none⟩

/-- one turn of the loop, with the status that each call of `cf ic inspect` reports; nothing happens after the exit -/
def turn (inspect : ℕ → Chars) (s : State) : State :=
  if s.exit ≠ none then s
  else if s.now ≤ timeout then
    let status := inspect s.polls.length
    let polls := s.polls ++ [s.clock]
    -- a status that `[` takes for an operator of its own is an error of the test, which is false as well
    if status = shutdown ∨ status = running ∨ status = building then
      if status = shutdown then { s with polls := polls, removed := s.removed + 1, exit := some 0 }
      else { s with polls := polls, now := s.now + interval, clock := sleep "INTERVAL".toList s.clock }
    else { s with polls := polls, exit := some 1 }
  else { s with exit := some 1 }

/-! ## What a run should be -/

/-- the container is not there yet, or still there -/
def Pending (status : Chars) : Prop := status = running ∨ status = building

instance (status : Chars) : Decidable (Pending status) := by unfold Pending; infer_instance

/-- the waiting time is not used up when the poll is due -/
def InTime (k : ℕ) : Prop := k * interval ≤ timeout

/-- the statuses before a poll are Running or Building -/
def PendingBefore (inspect : ℕ → Chars) (k : ℕ) : Prop := ∀ j < k, Pending (inspect j)

/-- Shutdown is reported in time -/
def ShutsDown (inspect : ℕ → Chars) : Prop := ∃ k, InTime k ∧ PendingBefore inspect k ∧ inspect k = shutdown

/-- the state in which a run should end -/
structure Correct (inspect : ℕ → Chars) (s : State) : Prop where
  removes : s.removed = 1 ∧ s.exit = some 0 ↔ ShutsDown inspect
  keeps : ¬ ShutsDown inspect → s.removed = 0 ∧ s.exit = some 1
  other : ∀ k, InTime k → PendingBefore inspect k → ¬ Pending (inspect k) → inspect k ≠ shutdown →
    s.exit = some 1 ∧ s.removed = 0 ∧ s.polls.length = k + 1
  givesUp : PendingBefore inspect s.polls.length → timeout ≤ s.clock
  spaced : s.polls.IsChain fun earlier later => later = earlier + interval

/-- the run ends in this state -/
def Ends (inspect : ℕ → Chars) (s : State) : Prop := s.exit ≠ none ∧ ∃ n, (turn inspect)^[n] start = s

def Right (inspect : ℕ → Chars) : Prop := ∃ s, Ends inspect s ∧ Correct inspect s

/-! ## Turns -/

section
variable {inspect : ℕ → Chars}

theorem sleep_interval (clock : ℕ) : sleep "INTERVAL".toList clock = clock := by
  have hnone : seconds "INTERVAL".toList = none := by decide
  rw [sleep, hnone]
  rfl

theorem pending_ne {status : Chars} (h : Pending status) : status ≠ shutdown := by
  rcases h with rfl | rfl <;> decide

theorem turn_exit {s : State} (h : s.exit ≠ none) : turn inspect s = s := if_pos h

theorem turn_pending {s : State} (hexit : s.exit = none) (hnow : s.now ≤ timeout)
    (h : Pending (inspect s.polls.length)) :
    turn inspect s = { s with polls := s.polls ++ [s.clock], now := s.now + interval } := by
  have hne := pending_ne h
  have hstatus : inspect s.polls.length = shutdown ∨ inspect s.polls.length = running ∨
      inspect s.polls.length = building := Or.inr h
  unfold turn
  simp only [sleep_interval]
  rw [if_neg (not_not.2 hexit), if_pos hnow, if_pos hstatus, if_neg hne]

theorem turn_shutdown {s : State} (hexit : s.exit = none) (hnow : s.now ≤ timeout)
    (h : inspect s.polls.length = shutdown) :
    turn inspect s = { s with polls := s.polls ++ [s.clock], removed := s.removed + 1, exit := some 0 } := by
  unfold turn
  simp only
  rw [if_neg (not_not.2 hexit), if_pos hnow, if_pos (Or.inl h), if_pos h]

theorem turn_other {s : State} (hexit : s.exit = none) (hnow : s.now ≤ timeout)
    (hpending : ¬ Pending (inspect s.polls.length)) (h : inspect s.polls.length ≠ shutdown) :
    turn inspect s = { s with polls := s.polls ++ [s.clock], exit := some 1 } := by
  have hstatus : ¬ (inspect s.polls.length = shutdown ∨ inspect s.polls.length = running ∨
      inspect s.polls.length = building) := not_or.2 ⟨h, hpending⟩
  unfold turn
  simp only
  rw [if_neg (not_not.2 hexit), if_pos hnow, if_neg hstatus]

theorem turn_late {s : State} (hexit : s.exit = none) (hnow : ¬ s.now ≤ timeout) :
    turn inspect s = { s with exit := some 1 } := by
  unfold turn
  rw [if_neg (not_not.2 hexit), if_neg hnow]

/-! ## Runs -/

/-- after n turns in which the container was pending -/
def waiting (n : ℕ) : State := ⟨n * interval, 0, List.replicate n 0, 0, none⟩

/-- **While the container is pending, NOW counts the turns and the clock stands still.** By induction on the turns. -/
theorem run_waiting {n : ℕ} (hpending : PendingBefore inspect n) (htime : ∀ k < n, InTime k) :
    (turn inspect)^[n] start = waiting n := by
  induction n with
  | zero => rfl
  | succ n ih =>
    have hbefore := ih (fun j hj => hpending j (Nat.lt_succ_of_lt hj)) fun k hk => htime k (Nat.lt_succ_of_lt hk)
    have hstatus : Pending (inspect (waiting n).polls.length) := by
      simpa [waiting] using hpending n (Nat.lt_succ_self n)
    have hnow : (waiting n).now ≤ timeout := htime n (Nat.lt_succ_self n)
    rw [Function.iterate_succ_apply', hbefore, turn_pending rfl hnow hstatus]
    simp only [waiting, State.mk.injEq, and_true, true_and]
    exact ⟨(Nat.succ_mul n interval).symm, List.replicate_succ'.symm⟩

/-- the state after a run stays -/
theorem ends_unique {s t : State} (hs : Ends inspect s) (ht : Ends inspect t) : s = t := by
  obtain ⟨hexit, n, rfl⟩ := hs
  obtain ⟨hexit', m, rfl⟩ := ht
  have hfixed : ∀ {a : State} (k : ℕ), a.exit ≠ none → (turn inspect)^[k] a = a := fun k ha =>
    Function.iterate_fixed (turn_exit ha) k
  rcases Nat.le_total n m with hle | hle
  · obtain ⟨k, rfl⟩ := Nat.exists_eq_add_of_le' hle
    rw [Function.iterate_add_apply, hfixed k hexit]
  · obtain ⟨k, rfl⟩ := Nat.exists_eq_add_of_le' hle
    rw [Function.iterate_add_apply, hfixed k hexit']

theorem inTime_iff {k : ℕ} : InTime k ↔ k < 4321 := by
  simp only [InTime, interval, timeout]
  omega

/-- the polls that are in time are an initial part of all -/
theorem inTime_lt {j k : ℕ} (h : InTime k) (hj : j < k) : InTime j := by
  rw [inTime_iff] at *
  omega

/-- how a run ends at the first status that is not pending -/
def stopped (k : ℕ) (removed code : ℕ) : State := ⟨k * interval, 0, List.replicate (k + 1) 0, removed, some code⟩

def gaveUp : State := ⟨4321 * interval, 0, List.replicate 4321 0, 0, some 1⟩

theorem stopped_exit {k removed code : ℕ} : (stopped k removed code).exit ≠ none := Option.some_ne_none code

theorem ends_shutdown {k : ℕ} (htime : InTime k) (hpending : PendingBefore inspect k) (h : inspect k = shutdown) :
    Ends inspect (stopped k 1 0) := by
  refine ⟨stopped_exit, k + 1, ?_⟩
  have hnow : (waiting k).now ≤ timeout := htime
  have hstatus : inspect (waiting k).polls.length = shutdown := by simpa [waiting] using h
  rw [Function.iterate_succ_apply', run_waiting hpending fun j hj => inTime_lt htime hj,
    turn_shutdown rfl hnow hstatus]
  simp [waiting, stopped, List.replicate_succ']

theorem ends_other {k : ℕ} (htime : InTime k) (hpending : PendingBefore inspect k) (hnot : ¬ Pending (inspect k))
    (h : inspect k ≠ shutdown) : Ends inspect (stopped k 0 1) := by
  refine ⟨stopped_exit, k + 1, ?_⟩
  have hnow : (waiting k).now ≤ timeout := htime
  have hlength : (waiting k).polls.length = k := by simp [waiting]
  rw [Function.iterate_succ_apply', run_waiting hpending fun j hj => inTime_lt htime hj,
    turn_other rfl hnow (hlength.symm ▸ hnot) (hlength.symm ▸ h)]
  simp [waiting, stopped, List.replicate_succ']

theorem ends_late (hpending : PendingBefore inspect 4321) : Ends inspect gaveUp := by
  refine ⟨Option.some_ne_none 1, 4321 + 1, ?_⟩
  have hlate : ¬ (waiting 4321).now ≤ timeout := by decide
  rw [Function.iterate_succ_apply', run_waiting hpending fun j hj => inTime_iff.2 hj, turn_late rfl hlate]
  rfl

/-- **Every run ends**: at the first status that is not pending, or after 4321 polls. -/
theorem ends_cases (inspect : ℕ → Chars) :
    (∃ k, InTime k ∧ PendingBefore inspect k ∧ inspect k = shutdown ∧ Ends inspect (stopped k 1 0)) ∨
      (∃ k, InTime k ∧ PendingBefore inspect k ∧ ¬ Pending (inspect k) ∧ inspect k ≠ shutdown ∧
        Ends inspect (stopped k 0 1)) ∨
      PendingBefore inspect 4321 ∧ Ends inspect gaveUp := by
  classical
  by_cases hall : PendingBefore inspect 4321
  · exact Or.inr (Or.inr ⟨hall, ends_late hall⟩)
  · have hex : ∃ k, ¬ Pending (inspect k) ∧ InTime k := by
      unfold PendingBefore at hall
      push Not at hall
      obtain ⟨k, hk, hnot⟩ := hall
      exact ⟨k, hnot, inTime_iff.2 hk⟩
    -- the first of them
    obtain ⟨hnot, htime⟩ := Nat.find_spec hex
    have hpending : PendingBefore inspect (Nat.find hex) := by
      intro j hj
      by_contra hj'
      exact Nat.find_min hex hj ⟨hj', inTime_lt htime hj⟩
    by_cases hshut : inspect (Nat.find hex) = shutdown
    · exact Or.inl ⟨_, htime, hpending, hshut, ends_shutdown htime hpending hshut⟩
    · exact Or.inr (Or.inl ⟨_, htime, hpending, hnot, hshut, ends_other htime hpending hnot hshut⟩)

/-! ## The runs that are right -/

/-- a run that waits polls again at the same time -/
theorem pending_wrong (h : Pending (inspect 0)) : ¬ Right inspect := by
  intro hright
  obtain ⟨s, hends, hcorrect⟩ := hright
  have htwice : ∃ rest, s.polls = 0 :: 0 :: rest := by
    have hpos : ∀ k, PendingBefore inspect k → ¬ Pending (inspect k) → ∃ j, k = j + 1 := by
      intro k _ hnot
      exact Nat.exists_eq_succ_of_ne_zero fun he => hnot (he ▸ h)
    rcases ends_cases inspect with ⟨k, -, hpending, hshut, hk⟩ | ⟨k, -, hpending, hnot, -, hk⟩ | ⟨-, hk⟩
    · obtain ⟨j, rfl⟩ := hpos k hpending fun hp => pending_ne hp hshut
      rw [ends_unique hends hk]
      exact ⟨List.replicate j 0, rfl⟩
    · obtain ⟨j, rfl⟩ := hpos k hpending hnot
      rw [ends_unique hends hk]
      exact ⟨List.replicate j 0, rfl⟩
    · rw [ends_unique hends hk]
      exact ⟨List.replicate 4319 0, rfl⟩
  obtain ⟨rest, hrest⟩ := htwice
  have hchain := hcorrect.spaced
  rw [hrest, List.isChain_cons_cons] at hchain
  exact absurd hchain.1 (by decide)

/-- a run that does not wait -/
theorem first_right (h : ¬ Pending (inspect 0)) : Right inspect := by
  have hzero : ∀ k, PendingBefore inspect k → k = 0 := by
    intro k hk
    by_contra hne
    exact h (hk 0 (Nat.pos_of_ne_zero hne))
  have htime : InTime 0 := inTime_iff.2 (by decide)
  have hbefore : PendingBefore inspect 0 := fun j hj => absurd hj (Nat.not_lt_zero j)
  by_cases hshut : inspect 0 = shutdown
  · have hshuts : ShutsDown inspect := ⟨0, htime, hbefore, hshut⟩
    refine ⟨stopped 0 1 0, ends_shutdown htime hbefore hshut, ?_⟩
    exact {
      removes := ⟨fun _ => hshuts, fun _ => ⟨rfl, rfl⟩⟩
      keeps := fun hnot => absurd hshuts hnot
      other := fun k _ hk _ hne => absurd (hzero k hk ▸ hshut) hne
      givesUp := fun hk => absurd (hzero _ hk) (by decide)
      spaced := List.isChain_singleton 0 }
  · have hshuts : ¬ ShutsDown inspect := fun ⟨k, _, hk, he⟩ => hshut (hzero k hk ▸ he)
    refine ⟨stopped 0 0 1, ends_other htime hbefore h hshut, ?_⟩
    exact {
      removes := iff_of_false (fun he => by cases he.1) hshuts
      keeps := fun _ => ⟨rfl, rfl⟩
      other := fun k _ hk _ _ => ⟨rfl, rfl, by rw [hzero k hk]; rfl⟩
      givesUp := fun hk => absurd (hzero _ hk) (by decide)
      spaced := List.isChain_singleton 0 }

/-- **A run is what it should be iff it never waits**: its first status is neither Running nor Building. -/
theorem right_iff (inspect : ℕ → Chars) : Right inspect ↔ ¬ Pending (inspect 0) :=
  ⟨fun hright h => pending_wrong h hright, first_right⟩

/-- the container runs on: 4321 polls at once -/
theorem running_on_polled_at_once : ¬ Right fun _ => running := pending_wrong (Or.inl rfl)

end

end IconSetup.RmPsql
