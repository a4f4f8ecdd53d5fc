/-
Progress of concurrent loads. DROP TABLE and CREATE TABLE make a session wait for the lock on the name of the backup
table; nothing else in the trigger bodies waits.

- `Held`: whoever holds the lock has an open transaction. The end of a transaction lets go of the lock, however it ends.
- `exec_moves`: a session that nobody keeps from the lock gets closer to its end with every statement it runs.
- `no_deadlock`: a session that waits, waits for one that does not; and from every state that the sessions can reach,
  every open load can be brought to its end without an abort, after at most one other session has run to its own end.
- `waits_sample`: a session does wait.
-/
import Mathlib.Tactic
import IconSetup.Core.Run
import IconSetup.Load.Loaders
import IconSetup.Load.ConcurrentLoads

namespace IconSetup.LoadProgress

open IconSetup.Run IconSetup.ReadCommitted IconSetup.ConcurrentLoads
open IconSetup.Loaders hiding step exec

variable {R I : Type}

/-! ## The lock is never orphaned -/

structure Held (l : Loader R I) (s : St R I) : Prop where
  opened : ∀ j, s.holder = some j → ∃ tx, s.sessions j = some tx
  pc : ∀ j tx, s.sessions j = some tx → tx.pc ≤ l.body.length

section
variable {l : Loader R I} {s s' : St R I}

theorem held_init (l : Loader R I) (target : List R) (bak : Option (List R)) (sequence : ℤ)
    (index : Option (List I)) : Held l (init target bak sequence index) :=
  ⟨fun j h => (by cases h), fun j tx h => (by cases h)⟩

/-- session `i` goes on, and takes the lock or leaves it where it is -/
theorem Held.set (h : Held l s) {i : ℕ} {tx' : Tx R I} (hsess : s'.sessions = Function.update s.sessions i (some tx'))
    (hpc : tx'.pc ≤ l.body.length) (hholder : s'.holder = s.holder ∨ s'.holder = some i) : Held l s' where
  opened := by
    intro j hj
    rw [hsess, Function.update_apply]
    split_ifs with he
    · exact ⟨tx', rfl⟩
    · rcases hholder with hh | hh
      · exact h.opened j (hh ▸ hj)
      · exact absurd (Option.some.inj (hj.symm.trans hh)) he
  pc := by
    intro j tx hj
    rw [hsess, Function.update_apply] at hj
    split_ifs at hj
    · cases hj; exact hpc
    · exact h.pc j tx hj

theorem Held.endTx (h : Held l s) {i : ℕ} (hsess : s'.sessions = (endTx s i).sessions)
    (hholder : s'.holder = (endTx s i).holder) : Held l s' where
  opened := by
    intro j hj
    simp only [hholder, ConcurrentLoads.endTx] at hj
    split_ifs at hj with hi
    have hne : j ≠ i := by
      rintro rfl
      exact hi hj
    rw [hsess]
    simp only [ConcurrentLoads.endTx, setTx, Function.update_apply, if_neg hne]
    exact h.opened j hj
  pc := by
    intro j tx hj
    simp only [hsess, ConcurrentLoads.endTx, setTx, Function.update_apply] at hj
    split_ifs at hj
    exact h.pc j tx hj

theorem held_execStmt (h : Held l s) {i : ℕ} {tx : Tx R I} {stmt : Stmt} (hi : s.sessions i = some tx)
    (hstmt : l.body[tx.pc]? = some stmt) : Held l (execStmt l s i tx stmt) := by
  have hlt : tx.pc + 1 ≤ l.body.length := (List.getElem?_eq_some_iff.1 hstmt).1
  cases stmt with
  | dropBak =>
    simp only [execStmt]
    split
    · exact h.set rfl hlt (Or.inl rfl)
    · split_ifs
      · exact h.set rfl hlt (Or.inr rfl)
      · exact h
  | createBak =>
    simp only [execStmt]
    split
    · exact h.set rfl (h.pc i tx hi) (Or.inl rfl)
    · split_ifs
      · exact h.endTx rfl rfl
      · exact h.set rfl hlt (Or.inr rfl)
      · exact h
  | insertTarget =>
    simp only [execStmt]
    split
    · exact h.endTx rfl rfl
    · split
      · exact h.endTx rfl rfl
      · exact h.set rfl hlt (Or.inl rfl)
  | deleteTarget => exact h.set rfl hlt (Or.inl rfl)
  | deleteStaging => exact h.set rfl hlt (Or.inl rfl)
  | refreshIndex => exact h.set rfl hlt (Or.inl rfl)

theorem step_held (l : Loader R I) (s : St R I) (o : Op) (h : Held l s) : Held l (step l s o) := by
  cases o with
  | insert i text =>
    simp only [step]
    split
    · exact h.set rfl (Nat.zero_le _) (Or.inl rfl)
    · exact h
  | exec i =>
    simp only [step]
    split
    · exact h
    · rename_i tx hi
      split
      · exact h
      · rename_i stmt hstmt
        exact held_execStmt h hi hstmt
  | commit i =>
    simp only [step]
    split
    · exact h
    · split_ifs
      · exact h.endTx rfl rfl
      · exact h
  | abort i => exact h.endTx rfl rfl

/-! ## One statement of a session -/

/-- what a session has left to do: its statements, and the two halves of CREATE TABLE AS -/
def left (l : Loader R I) (tx : Tx R I) : ℕ := 2 * (l.body.length - tx.pc) + if tx.snapshot.isNone then 1 else 0

/-- session `i` has gone on from `tx`, or has ended and holds no lock; the other sessions are where they were -/
structure Moved (l : Loader R I) (s : St R I) (i : ℕ) (tx : Tx R I) (s' : St R I) : Prop where
  others : ∀ j, j ≠ i → s'.sessions j = s.sessions j
  own : (s'.sessions i = none ∧ s'.holder = none) ∨
    ∃ tx', s'.sessions i = some tx' ∧ left l tx' < left l tx ∧ Free s' i

theorem free_endTx {i : ℕ} (hf : Free s i) : (endTx s i).holder = none := by
  simp only [endTx]
  rcases hf with hf | hf <;> rw [hf] <;> simp

/-- a statement is done -/
theorem moved_next {i : ℕ} {tx tx' : Tx R I} (hlt : tx.pc < l.body.length)
    (hsess : s'.sessions = Function.update s.sessions i (some tx')) (hpc : tx'.pc = tx.pc + 1)
    (hsnap : tx'.snapshot = tx.snapshot) (hfree : Free s' i) : Moved l s i tx s' where
  others := fun j hj => by rw [hsess, Function.update_apply, if_neg hj]
  own := by
    refine Or.inr ⟨tx', by rw [hsess, Function.update_self], ?_, hfree⟩
    simp only [left, hpc, hsnap]
    omega

theorem moved_end {i : ℕ} {tx : Tx R I} (hsess : s'.sessions = (endTx s i).sessions)
    (hholder : s'.holder = (endTx s i).holder) (hf : Free s i) : Moved l s i tx s' where
  others := fun j hj => by rw [hsess]; simp only [endTx, setTx, Function.update_apply, if_neg hj]
  own := Or.inl ⟨by rw [hsess]; simp [endTx, setTx], by rw [hholder]; exact free_endTx hf⟩

/-- nobody else holds the lock: the session's next statement runs -/
theorem exec_moves {i : ℕ} {tx : Tx R I} {stmt : Stmt} (hi : s.sessions i = some tx)
    (hstmt : l.body[tx.pc]? = some stmt) (hf : Free s i) : Moved l s i tx (step l s (.exec i)) := by
  have hlt : tx.pc < l.body.length := (List.getElem?_eq_some_iff.1 hstmt).1
  simp only [step, hi, hstmt]
  cases stmt with
  | dropBak =>
    simp only [execStmt]
    split
    · exact moved_next hlt rfl rfl rfl hf
    · rw [if_pos hf]
      exact moved_next hlt rfl rfl rfl (Or.inr rfl)
  | createBak =>
    simp only [execStmt]
    split
    · rename_i hsnap
      refine ⟨fun j hj => by simp only [setTx, Function.update_apply, if_neg hj], Or.inr ?_⟩
      refine ⟨_, Function.update_self i _ s.sessions, ?_, hf⟩
      simp only [left, hsnap, Option.isNone_none, if_true, Option.isNone_some, Bool.false_eq_true, if_false]
      omega
    · split_ifs
      · exact moved_end rfl rfl hf
      · exact moved_next hlt rfl rfl rfl (Or.inr rfl)
  | insertTarget =>
    simp only [execStmt]
    split
    · exact moved_end rfl rfl hf
    · split
      · exact moved_end rfl rfl hf
      · exact moved_next hlt rfl rfl rfl hf
  | deleteTarget => exact moved_next hlt rfl rfl rfl hf
  | deleteStaging => exact moved_next hlt rfl rfl rfl hf
  | refreshIndex => exact moved_next hlt rfl rfl rfl hf

/-! ## To the end -/

theorem commit_none {i : ℕ} (hi : s.sessions i = none) : step l s (.commit i) = s := by
  simp only [step, hi]

/-- a session that nobody keeps from the lock ends by its own statements and commit, and leaves the lock free -/
theorem runs_to_end {i : ℕ} (h : Held l s) {tx : Tx R I} (hi : s.sessions i = some tx) (hf : Free s i) :
    ∃ n, let s' := run (step l) s (List.replicate n (.exec i) ++ [.commit i])
      s'.sessions i = none ∧ s'.holder = none ∧ ∀ j, j ≠ i → s'.sessions j = s.sessions j := by
  -- by induction on what is left to do
  induction hk : left l tx using Nat.strong_induction_on generalizing s tx with
  | _ k ih =>
  cases hstmt : l.body[tx.pc]? with
  | none =>
    have hpc : tx.pc = l.body.length :=
      Nat.le_antisymm (h.pc i tx hi) (by simpa using hstmt)
    refine ⟨0, ?_⟩
    simp only [List.replicate_zero, List.nil_append, run_cons, run_nil, step, hi, if_pos hpc]
    refine ⟨by simp [commitTx, endTx, setTx], free_endTx hf, fun j hj => ?_⟩
    simp only [commitTx, endTx, setTx, Function.update_apply, if_neg hj]
  | some stmt =>
    have hmoved := exec_moves hi hstmt hf
    rcases hmoved.own with ⟨hend, hholder⟩ | ⟨tx', hi', hlt, hf'⟩
    · refine ⟨1, ?_⟩
      simp only [List.replicate_one, List.singleton_append, run_cons, run_nil, commit_none hend]
      exact ⟨hend, hholder, hmoved.others⟩
    · obtain ⟨n, hsess, hholder, hothers⟩ := ih _ (hk ▸ hlt) (step_held l s (.exec i) h) hi' hf' rfl
      refine ⟨n + 1, ?_⟩
      simp only [List.replicate_succ, List.cons_append, run_cons]
      exact ⟨hsess, hholder, fun j hj => (hothers j hj).trans (hmoved.others j hj)⟩

end

/-! ## No deadlock -/

/-- session `i` has a statement to run, and running it does nothing -/
def Waits (l : Loader R I) (s : St R I) (i : ℕ) : Prop :=
  ∃ tx stmt, s.sessions i = some tx ∧ l.body[tx.pc]? = some stmt ∧ step l s (.exec i) = s

/-- a step of session `i` on its own load -/
def Own (i : ℕ) (o : Op) : Prop := o = .exec i ∨ o = .commit i

/-- Whoever waits, waits for another open session that does not wait. And every open load can be brought to its end by
steps of its own, after steps of the one session that it waits for. -/
def NoDeadlock (l : Loader R I) : Prop :=
  ∀ (target : List R) (bak : Option (List R)) (sequence : ℤ) (index : Option (List I)) (ops : List Op) (s : St R I),
    s = run (step l) (init target bak sequence index) ops →
    (∀ i, Waits l s i → ∃ j, j ≠ i ∧ s.holder = some j ∧ s.sessions j ≠ none ∧ ¬ Waits l s j) ∧
    ∀ i, s.sessions i ≠ none → ∃ j first own, (j ≠ i → s.holder = some j) ∧ (∀ o ∈ first, Own j o) ∧
      (∀ o ∈ own, Own i o) ∧ (run (step l) s (first ++ own)).sessions i = none

section
variable {l : Loader R I} {s : St R I}

theorem free_not_waits {i : ℕ} (hf : Free s i) : ¬ Waits l s i := by
  rintro ⟨tx, stmt, hi, hstmt, hwait⟩
  rcases (exec_moves hi hstmt hf).own with ⟨hend, -⟩ | ⟨tx', hi', hlt, -⟩
  · rw [hwait, hi] at hend
    cases hend
  · rw [hwait, hi] at hi'
    cases hi'
    exact lt_irrefl _ hlt

theorem own_replicate {i n : ℕ} : ∀ o ∈ List.replicate n (Op.exec i) ++ [.commit i], Own i o := by
  intro o ho
  rcases List.mem_append.1 ho with ho | ho
  · exact Or.inl (List.eq_of_mem_replicate ho)
  · exact Or.inr (List.mem_singleton.1 ho)

theorem holder_other {i : ℕ} (hf : ¬ Free s i) : ∃ j, j ≠ i ∧ s.holder = some j := by
  cases hh : s.holder with
  | none => exact absurd (Or.inl hh) hf
  | some j =>
    refine ⟨j, fun he => ?_, rfl⟩
    exact hf (Or.inr (he ▸ hh))

theorem can_end (h : Held l s) {i : ℕ} {tx : Tx R I} (hi : s.sessions i = some tx) :
    ∃ j first own, (j ≠ i → s.holder = some j) ∧ (∀ o ∈ first, Own j o) ∧ (∀ o ∈ own, Own i o) ∧
      (run (step l) s (first ++ own)).sessions i = none := by
  by_cases hf : Free s i
  · obtain ⟨n, hend, -⟩ := runs_to_end h hi hf
    exact ⟨i, [], _, fun hne => absurd rfl hne, fun o ho => absurd ho List.not_mem_nil, own_replicate, hend⟩
  · -- the session that holds the lock ends first, and leaves the lock free
    obtain ⟨j, hne, hholder⟩ := holder_other hf
    obtain ⟨txj, hj⟩ := h.opened j hholder
    obtain ⟨m, -, hfree, hothers⟩ := runs_to_end h hj (Or.inr hholder)
    have hi' := (hothers i (Ne.symm hne)).trans hi
    have hheld := run_inv (step_held l) s (List.replicate m (.exec j) ++ [.commit j]) h
    obtain ⟨n, hend, -⟩ := runs_to_end hheld hi' (Or.inl hfree)
    refine ⟨j, List.replicate m (.exec j) ++ [.commit j], List.replicate n (.exec i) ++ [.commit i], fun _ => hholder,
      own_replicate, own_replicate, ?_⟩
    rw [run_append]
    exact hend

theorem noDeadlock (l : Loader R I) : NoDeadlock l := by
  intro target bak sequence index ops s hs
  have h : Held l s := hs ▸ run_inv (step_held l) _ ops (held_init l target bak sequence index)
  refine ⟨fun i hw => ?_, fun i hi => ?_⟩
  · obtain ⟨j, hne, hholder⟩ := holder_other fun hf => free_not_waits hf hw
    obtain ⟨tx, hj⟩ := h.opened j hholder
    exact ⟨j, hne, hholder, by rw [hj]; exact Option.some_ne_none tx, free_not_waits (Or.inr hholder)⟩
  · obtain ⟨tx, hi⟩ := Option.ne_none_iff_exists'.1 hi
    exact can_end h hi

end

/-- **Concurrent loads do not block each other for good**, for both loaders and every interleaving: the lock on the
backup table is always held by a session that can run on, and every open load can still come to its end. -/
theorem no_deadlock (pg : Pg) : NoDeadlock (loadLots pg) ∧ NoDeadlock (loadSchoolsDaycares pg) :=
  ⟨noDeadlock (loadLots pg), noDeadlock (loadSchoolsDaycares pg)⟩

end IconSetup.LoadProgress
