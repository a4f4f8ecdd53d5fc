/-
Progress on process_lock: the row is never locked by nobody, a worker that finds it free and due gets it, and a worker
that has it finishes its run whatever the others do.

- `HolderOpen`: the row lock belongs to an open transaction that is past its select.
- `begin_scan_lock`: the three steps of the select, on the committed state alone.
- `others_step`: no step of another worker touches the table, the lock or the state of the worker that is critical.
- `process_lock_progress`: the three together, after every interleaving.
-/
import Mathlib.Tactic
import IconSetup.Core.Run
import IconSetup.Lookup.ProcessLock

namespace IconSetup.LockProgress

open IconSetup.Run IconSetup.ProcessLock

/-! ## Who holds the row -/

/-- past the select: it has the row, or the second check refused the row it had locked -/
def Past : Worker → Prop
  | .noRow _ => True
  | .selected _ => True
  | .updated _ => True
  | _ => False

def HolderOpen (s : St) : Prop := ∀ i, s.holder = some i → Past (s.workers i)

theorem holderOpen_init (today : ℤ) (t : Table) : HolderOpen (init today t) := fun i h => by cases h

section
variable {s : St} {i : ℕ}

/-- a worker moves on, and is past its select if it was or if it holds the row -/
theorem holderOpen_setWorker (h : HolderOpen s) {w : Worker} {holder : Option ℕ}
    (hw : holder = some i → Past w) (hh : holder = s.holder ∨ holder = some i) :
    HolderOpen { setWorker s i w with holder := holder } := by
  intro j hj
  have hj : holder = some j := hj
  simp only [setWorker, Function.update_apply]
  split_ifs with he
  · exact hw (he ▸ hj)
  · rcases hh with hh | hh
    · exact h j (hh ▸ hj)
    · exact absurd (Option.some.inj (hj.symm.trans hh)) he

theorem holderOpen_endTx (h : HolderOpen s) (i : ℕ) {table : Table} {runs : List Committed} :
    HolderOpen { endTx s i with table := table, runs := runs } := by
  intro j hj
  simp only [endTx] at hj
  split_ifs at hj with hi
  have hne : j ≠ i := by
    rintro rfl
    exact hi hj
  simp only [endTx, setWorker, Function.update_apply, if_neg hne]
  exact h j hj

/-- who has not come to its select does not hold the row -/
theorem not_holder (h : HolderOpen s) (hw : ¬ Past (s.workers i)) : s.holder ≠ some i := fun hi => hw (h i hi)

theorem step_holderOpen (s : St) (o : Op) (h : HolderOpen s) : HolderOpen (step s o) := by
  cases o with
  | advance days => exact h
  | begin i =>
    simp only [step]
    split
    · rename_i hi
      have hnot := not_holder h (i := i) (by rw [hi]; exact id)
      exact holderOpen_setWorker h (fun hh => absurd hh hnot) (Or.inl rfl)
    · exact h
  | scan i =>
    simp only [step]
    split
    · rename_i d hi
      have hnot := not_holder h (i := i) (by rw [hi]; exact id)
      split_ifs
      · exact holderOpen_setWorker h (fun hh => absurd hh hnot) (Or.inl rfl)
      · exact holderOpen_setWorker h (fun _ => trivial) (Or.inl rfl)
    · exact h
  | lock i =>
    simp only [step]
    split
    · split_ifs
      · exact holderOpen_endTx h i
      · exact holderOpen_setWorker h (fun _ => trivial) (Or.inr rfl)
      · exact holderOpen_setWorker h (fun _ => trivial) (Or.inr rfl)
    · exact h
  | update i =>
    simp only [step]
    split
    · exact holderOpen_setWorker h (fun _ => trivial) (Or.inl rfl)
    · exact h
  | commit i =>
    simp only [step]
    split
    · exact holderOpen_endTx h i
    · exact holderOpen_endTx h i
    · exact h
  | rollback i => exact holderOpen_endTx h i

/-! ## The select -/

@[simp] theorem setWorker_self (s : St) (i : ℕ) (w : Worker) : (setWorker s i w).workers i = w := by
  simp only [setWorker, Function.update_self]

theorem endTx_self (s : St) (i : ℕ) : (endTx s i).workers i = .idle := setWorker_self s i .idle

theorem step_begin (hi : s.workers i = .idle) : step s (.begin i) = setWorker s i (.begun s.today) := by
  simp only [step, hi]

theorem step_scan {d : ℤ} (hi : s.workers i = .begun d) : step s (.scan i) =
    if ∃ r ∈ s.table.rows, Due d r then setWorker s i (.scanned d) else setWorker s i (.noRow d) := by
  simp only [step, hi]

theorem step_lock {d : ℤ} (hi : s.workers i = .scanned d) (hdue : ∃ r ∈ s.table.rows, Due d r) :
    (step s (.lock i)).workers i = if s.holder ≠ none ∧ s.holder ≠ some i then .idle else .selected d := by
  simp only [step, hi]
  rw [if_pos hdue]
  split_ifs
  · exact endTx_self s i
  · exact setWorker_self s i _

/-- what the select of an idle worker comes to when nothing happens in between -/
theorem begin_scan_lock (hi : s.workers i = .idle) : (run step s [.begin i, .scan i, .lock i]).workers i =
    if ∃ r ∈ s.table.rows, Due s.today r then
      if s.holder ≠ none ∧ s.holder ≠ some i then .idle else .selected s.today
    else .noRow s.today := by
  have hscan := step_scan (setWorker_self s i (.begun s.today))
  rw [run_cons, step_begin hi, run_cons, run_cons, run_nil]
  by_cases hdue : ∃ r ∈ s.table.rows, Due s.today r
  · have hscanned := hscan.trans (if_pos hdue)
    rw [hscanned, if_pos hdue]
    exact step_lock (setWorker_self _ i _) hdue
  · have hno := hscan.trans (if_neg hdue)
    rw [hno, if_neg hdue]
    simp only [step, setWorker_self]

/-- an idle worker gets the row iff nobody holds it and the committed date is at least 10 days old -/
theorem takes_iff (h : HolderOpen s) (hi : s.workers i = .idle) :
    (run step s [.begin i, .scan i, .lock i]).workers i = .selected s.today ↔
      s.holder = none ∧ ∃ d, UpdatedAt s.table d ∧ d + 10 ≤ s.today := by
  have hnot : s.holder ≠ some i := not_holder h (by rw [hi]; exact id)
  rw [begin_scan_lock hi, ← due_iff]
  split_ifs with hdue hholder
  · simp [hholder.1]
  · simp only [hdue, and_true, true_iff]
    by_contra hne
    exact hholder ⟨hne, hnot⟩
  · simp [hdue]

/-! ## A run in progress -/

/-- the worker that takes the step; none when only time passes -/
def worker : Op → Option ℕ
  | .advance _ => none
  | .begin i => some i
  | .scan i => some i
  | .lock i => some i
  | .update i => some i
  | .commit i => some i
  | .rollback i => some i

/-- what is fixed while worker `i` is critical -/
structure Fixed (i : ℕ) (s s' : St) : Prop where
  workers : s'.workers i = s.workers i
  holder : s'.holder = s.holder
  table : s'.table = s.table
  runs : s'.runs = s.runs

theorem Fixed.refl (i : ℕ) (s : St) : Fixed i s s := ⟨rfl, rfl, rfl, rfl⟩

theorem Fixed.trans {a b c : St} (h1 : Fixed i a b) (h2 : Fixed i b c) : Fixed i a c :=
  ⟨h2.workers.trans h1.workers, h2.holder.trans h1.holder, h2.table.trans h1.table, h2.runs.trans h1.runs⟩

theorem fixed_setWorker {j : ℕ} (hj : j ≠ i) (w : Worker) : Fixed i s (setWorker s j w) :=
  ⟨by simp only [setWorker, Function.update_apply, if_neg (Ne.symm hj)], rfl, rfl, rfl⟩

theorem fixed_endTx {j : ℕ} (hj : j ≠ i) (hholder : s.holder = some i) : Fixed i s (endTx s j) := by
  refine ⟨by simp only [endTx, setWorker, Function.update_apply, if_neg (Ne.symm hj)], ?_, rfl, rfl⟩
  simp only [endTx, hholder]
  rw [if_neg]
  simpa using Ne.symm hj

theorem others_step (hinv : Inv s) {d : ℤ} (hc : (s.workers i).critical = some d) {o : Op} (ho : worker o ≠ some i) :
    Fixed i s (step s o) := by
  have hholder := hinv.holds i d hc
  cases o with
  | advance days => exact ⟨rfl, rfl, rfl, rfl⟩
  | begin j =>
    have hj : j ≠ i := fun he => ho (congrArg some he)
    simp only [step]
    split
    · exact fixed_setWorker hj _
    · exact Fixed.refl i s
  | scan j =>
    have hj : j ≠ i := fun he => ho (congrArg some he)
    simp only [step]
    split
    · split_ifs
      · exact fixed_setWorker hj _
      · exact fixed_setWorker hj _
    · exact Fixed.refl i s
  | lock j =>
    have hj : j ≠ i := fun he => ho (congrArg some he)
    have hother : s.holder ≠ none ∧ s.holder ≠ some j := by
      rw [hholder]
      exact ⟨Option.some_ne_none i, fun he => hj (Option.some.inj he).symm⟩
    simp only [step]
    split
    · -- NOWAIT
      rw [if_pos hother]
      exact fixed_endTx hj hholder
    · exact Fixed.refl i s
  | update j =>
    have hj : j ≠ i := fun he => ho (congrArg some he)
    simp only [step]
    split
    · exact fixed_setWorker hj _
    · exact Fixed.refl i s
  | commit j =>
    have hj : j ≠ i := fun he => ho (congrArg some he)
    simp only [step]
    split
    · -- a second worker that could commit a run would hold the row as well
      rename_i dj hdj
      have hholder' := hinv.holds j dj (by rw [hdj]; rfl)
      exact absurd (Option.some.inj (hholder'.symm.trans hholder)) hj
    · exact fixed_endTx hj hholder
    · exact Fixed.refl i s
  | rollback j =>
    have hj : j ≠ i := fun he => ho (congrArg some he)
    exact fixed_endTx hj hholder

theorem others_run (hinv : Inv s) {d : ℤ} (hc : (s.workers i).critical = some d) {ops : List Op}
    (ho : ∀ o ∈ ops, worker o ≠ some i) : Fixed i s (run step s ops) := by
  induction ops generalizing s with
  | nil => exact Fixed.refl i s
  | cons o ops ih =>
    have hstep := others_step hinv hc (ho o List.mem_cons_self)
    have hc' : ((step s o).workers i).critical = some d := by rw [hstep.workers]; exact hc
    have hrest := ih (step_inv s o hinv) hc' fun o' ho' => ho o' (List.mem_cons_of_mem o ho')
    rw [run_cons]
    exact hstep.trans hrest

/-- a worker that has the row: others do what they like, it updates, others go on, and it commits -/
theorem finishes (hinv : Inv s) {d : ℤ} (hi : s.workers i = .selected d) {a b : List Op}
    (ha : ∀ o ∈ a, worker o ≠ some i) (hb : ∀ o ∈ b, worker o ≠ some i) :
    (run step s (a ++ .update i :: b ++ [.commit i])).runs = ⟨d, d⟩ :: s.runs ∧
      UpdatedAt (run step s (a ++ .update i :: b ++ [.commit i])).table d ∧
      (run step s (a ++ .update i :: b ++ [.commit i])).holder = none := by
  have hca : (s.workers i).critical = some d := by rw [hi]; rfl
  have hfa := others_run hinv hca ha
  have hinva := run_inv step_inv s a hinv
  have hupdate : step (run step s a) (.update i) = setWorker (run step s a) i (.updated d) := by
    simp only [step, hfa.workers, hi]
  have hinvu := step_inv _ (.update i) hinva
  rw [hupdate] at hinvu
  have hcu : ((setWorker (run step s a) i (.updated d)).workers i).critical = some d := by
    rw [setWorker_self]
    rfl
  have hfb := others_run hinvu hcu hb
  have hw : (run step (setWorker (run step s a) i (.updated d)) b).workers i = .updated d := by
    rw [hfb.workers, setWorker_self]
  have hrun : run step s (a ++ .update i :: b ++ [.commit i]) =
      step (run step (setWorker (run step s a) i (.updated d)) b) (.commit i) := by
    rw [run_append, run_append, run_cons, run_cons, run_nil, hupdate]
  obtain ⟨u, hu, -⟩ := hinv.due i d hca
  have hu' : UpdatedAt (run step (setWorker (run step s a) i (.updated d)) b).table u := by
    rw [hfb.table]
    exact hfa.table ▸ hu
  have hholder : (run step (setWorker (run step s a) i (.updated d)) b).holder = some i :=
    (hfb.holder.trans hfa.holder).trans (hinv.holds i d hca)
  rw [hrun]
  simp only [step, hw]
  refine ⟨?_, updatedAt_set hu', ?_⟩
  · rw [hfb.runs]
    exact congrArg _ hfa.runs
  · simp only [endTx, hholder, if_true]

end

/-- **process_lock never gets stuck.** After every interleaving of workers and days: a row that is locked is locked by an
open transaction past its select, whose rollback unlocks it; an idle worker that begins, scans and locks gets the row iff
nobody holds it and the committed date is at least 10 days old; and a worker that has the row completes its run whatever
the others do before and after its update, with no other run committed in between. -/
theorem process_lock_progress (today : ℤ) (t : Table) (ops : List Op) (s : St) (hs : s = run step (init today t) ops) :
    (∀ i, s.holder = some i → Past (s.workers i) ∧ (step s (.rollback i)).holder = none) ∧
    (∀ i, s.workers i = .idle → ((run step s [.begin i, .scan i, .lock i]).workers i = .selected s.today ↔
      s.holder = none ∧ ∃ d, UpdatedAt s.table d ∧ d + 10 ≤ s.today)) ∧
    ∀ i d a b, s.workers i = .selected d → (∀ o ∈ a, worker o ≠ some i) → (∀ o ∈ b, worker o ≠ some i) →
      (run step s (a ++ .update i :: b ++ [.commit i])).runs = ⟨d, d⟩ :: s.runs ∧
        UpdatedAt (run step s (a ++ .update i :: b ++ [.commit i])).table d ∧
        (run step s (a ++ .update i :: b ++ [.commit i])).holder = none := by
  have hinv : Inv s := hs ▸ run_inv step_inv _ ops (inv_init today t)
  have hopen : HolderOpen s := hs ▸ run_inv step_holderOpen _ ops (holderOpen_init today t)
  refine ⟨fun i hi => ⟨hopen i hi, ?_⟩, fun i hi => takes_iff hopen hi, fun i d a b hi ha hb => finishes hinv hi ha hb⟩
  simp only [step, endTx, hi, if_true]

/-- worker 1 tries while worker 0 has the row; worker 0 still completes the run of day 100 -/
theorem process_lock_progress_seed : (run step (run step (init 100 (seed 100)) [.begin 0, .scan 0, .lock 0])
    ([.begin 1, .scan 1, .lock 1] ++ .update 0 :: [.advance 3] ++ [.commit 0])).runs = [⟨100, 100⟩] :=
  ((process_lock_progress 100 (seed 100) [.begin 0, .scan 0, .lock 0] _ rfl).2.2 0 100 [.begin 1, .scan 1, .lock 1]
    [.advance 3] (by decide) (by decide) (by decide)).1

end IconSetup.LockProgress
