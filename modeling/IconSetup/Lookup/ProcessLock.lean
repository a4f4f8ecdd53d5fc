/-
The table process_lock and the transaction that the schema script prescribes to its users, for any number of workers
under READ COMMITTED:

  begin; select * from process_lock where current_date - interval '10 days' >= updated_at
    and process_name = 'data-dictionary' for update nowait;
  .. do the updates ..
  update process_lock set updated_at = current_date where process_name = 'data-dictionary'; commit;

`current_date` is fixed at begin. The select first scans what was committed when it started (`scan`), then locks the
row it found (`lock`): NOWAIT fails when another transaction holds the row, otherwise the predicate is checked again
on the latest committed version. A lock taken for a row that fails this second check stays until the transaction
ends. A worker goes on only with a row in hand. Dates are day numbers; the wall clock only advances.

- `Table`: the rows, with process_name UNIQUE as a field. Uniqueness makes the one row lock a lock on the name.
- `Inv`: who is critical holds the lock and began at least 10 days after the committed date; the last committed run
  left the committed date.
- `process_lock_exclusive`: along every interleaving, at most one worker is between its successful select and the end
  of its transaction, updated_at never decreases, and committed runs are at least 10 days apart.
-/
import Mathlib.Tactic
import IconSetup.Core.Run

namespace IconSetup.ProcessLock

open IconSetup.Run

/-! ## The table -/

structure Row where
  processName : String
  updatedAt : ℤ
deriving DecidableEq, Repr

/-- `process_name varchar(50) NOT NULL UNIQUE, updated_at date NOT NULL` -/
structure Table where
  rows : List Row
  unique : (rows.map Row.processName).Nodup

def dataDictionary : String := "data-dictionary"

/-- `current_date - interval '10 days' >= updated_at and process_name = 'data-dictionary'` -/
def Due (currentDate : ℤ) (r : Row) : Prop := r.updatedAt ≤ currentDate - 10 ∧ r.processName = dataDictionary

instance (currentDate : ℤ) (r : Row) : Decidable (Due currentDate r) := by unfold Due; infer_instance

def touch (currentDate : ℤ) (r : Row) : Row :=
  if r.processName = dataDictionary then { r with updatedAt := currentDate } else r

theorem touch_processName (currentDate : ℤ) (r : Row) : (touch currentDate r).processName = r.processName := by
  unfold touch; split_ifs <;> rfl

/-- `update process_lock set updated_at = current_date where process_name = 'data-dictionary'` -/
def setUpdatedAt (currentDate : ℤ) (t : Table) : Table where
  rows := t.rows.map (touch currentDate)
  unique := by
    rw [List.map_map, show Row.processName ∘ touch currentDate = Row.processName from
      funext (touch_processName currentDate)]
    exact t.unique

/-- the date of the row 'data-dictionary' -/
def UpdatedAt (t : Table) (d : ℤ) : Prop := ∃ r ∈ t.rows, r.processName = dataDictionary ∧ r.updatedAt = d

theorem updatedAt_unique {t : Table} {d d' : ℤ} (h : UpdatedAt t d) (h' : UpdatedAt t d') : d = d' := by
  obtain ⟨r, hr, hn, rfl⟩ := h
  obtain ⟨r', hr', hn', rfl⟩ := h'
  rw [List.inj_on_of_nodup_map t.unique hr hr' (hn.trans hn'.symm)]

theorem updatedAt_set {t : Table} {d d' : ℤ} (h : UpdatedAt t d) : UpdatedAt (setUpdatedAt d' t) d' := by
  obtain ⟨r, hr, hn, -⟩ := h
  refine ⟨touch d' r, List.mem_map_of_mem hr, (touch_processName d' r).trans hn, ?_⟩
  rw [touch, if_pos hn]

/-- some row is due iff the committed date is at least 10 days old -/
theorem due_iff (t : Table) (currentDate : ℤ) :
    (∃ r ∈ t.rows, Due currentDate r) ↔ ∃ d, UpdatedAt t d ∧ d + 10 ≤ currentDate := by
  constructor
  · rintro ⟨r, hr, hle, hn⟩; exact ⟨r.updatedAt, ⟨r, hr, hn, rfl⟩, by omega⟩
  · rintro ⟨d, ⟨r, hr, hn, rfl⟩, hle⟩; exact ⟨r, hr, by omega, hn⟩

/-! ## Workers -/

/-- where a worker is in its transaction; `currentDate` was fixed at begin -/
inductive Worker where
  | idle
  | begun (currentDate : ℤ)
  | scanned (currentDate : ℤ)
  /-- the select returned no row: the transaction has nothing to do but end -/
  | noRow (currentDate : ℤ)
  | selected (currentDate : ℤ)
  | updated (currentDate : ℤ)
deriving DecidableEq, Repr

/-- between its successful select and the end of its transaction -/
def Worker.critical : Worker → Option ℤ
  | .selected d => some d
  | .updated d => some d
  | _ => none

/-- a committed run: its current_date, and the updated_at it left -/
structure Committed where
  currentDate : ℤ
  left : ℤ
deriving DecidableEq, Repr

structure St where
  /-- today on the wall clock -/
  today : ℤ
  /-- process_lock as committed -/
  table : Table
  /-- the transaction that holds the lock on the row 'data-dictionary' -/
  holder : Option ℕ
  workers : ℕ → Worker
  /-- the committed runs, latest first -/
  runs : List Committed

inductive Op where
  | advance (days : ℕ)
  | begin (i : ℕ)
  | scan (i : ℕ)
  | lock (i : ℕ)
  | update (i : ℕ)
  | commit (i : ℕ)
  | rollback (i : ℕ)
deriving DecidableEq, Repr

def init (today : ℤ) (t : Table) : St := ⟨today, t, none, fun _ => .idle, []⟩

def setWorker (s : St) (i : ℕ) (w : Worker) : St := { s with workers := Function.update s.workers i w }

/-- a transaction ends: it lets go of the row -/
def endTx (s : St) (i : ℕ) : St :=
  { setWorker s i .idle with holder := if s.holder = some i then none else s.holder }

def step (s : St) : Op → St
  | .advance days => { s with today := s.today + days }
  | .begin i =>
    match s.workers i with
    | .idle => setWorker s i (.begun s.today)
    | _ => s
  | .scan i =>
    match s.workers i with
    | .begun d => if ∃ r ∈ s.table.rows, Due d r then setWorker s i (.scanned d) else setWorker s i (.noRow d)
    | _ => s
  | .lock i =>
    match s.workers i with
    | .scanned d =>
      -- NOWAIT: the statement fails, and the transaction with it
      if s.holder ≠ none ∧ s.holder ≠ some i then endTx s i
      else if ∃ r ∈ s.table.rows, Due d r then { setWorker s i (.selected d) with holder := some i }
      else { setWorker s i (.noRow d) with holder := some i }
    | _ => s
  | .update i =>
    match s.workers i with
    | .selected d => setWorker s i (.updated d)
    | _ => s
  | .commit i =>
    match s.workers i with
    | .updated d => { endTx s i with table := setUpdatedAt d s.table, runs := ⟨d, d⟩ :: s.runs }
    | .noRow _ => endTx s i
    | _ => s
  | .rollback i => endTx s i

/-! ## The invariant -/

structure Inv (s : St) : Prop where
  holds : ∀ i d, (s.workers i).critical = some d → s.holder = some i
  due : ∀ i d, (s.workers i).critical = some d → ∃ u, UpdatedAt s.table u ∧ u + 10 ≤ d
  last : ∀ r ∈ s.runs.head?, UpdatedAt s.table r.left
  spaced : s.runs.IsChain fun next prev => prev.left + 10 ≤ next.currentDate

theorem inv_init (today : ℤ) (t : Table) : Inv (init today t) :=
  ⟨fun i d h => by simp [init, Worker.critical] at h, fun i d h => by simp [init, Worker.critical] at h,
    fun r h => by simp [init] at h, List.IsChain.nil⟩

/-- a worker moves to a state outside the critical section, or was in it already, and the holder stays -/
theorem inv_setWorker {s : St} (h : Inv s) (i : ℕ) (w : Worker)
    (hw : w.critical = none ∨ w.critical = (s.workers i).critical) : Inv (setWorker s i w) := by
  have hcrit : ∀ j d, ((setWorker s i w).workers j).critical = some d → (s.workers j).critical = some d := by
    intro j d hj
    simp only [setWorker, Function.update_apply] at hj
    split_ifs at hj with he
    · subst he
      rcases hw with hw | hw
      · rw [hw] at hj; cases hj
      · rwa [hw] at hj
    · exact hj
  exact ⟨fun j d hj => h.holds j d (hcrit j d hj), fun j d hj => h.due j d (hcrit j d hj), h.last, h.spaced⟩

/-- a worker outside the critical section takes the row; nobody else holds it -/
theorem inv_take {s : St} (h : Inv s) (i : ℕ) (w : Worker) (hfree : ¬ (s.holder ≠ none ∧ s.holder ≠ some i))
    (hw : ∀ d, w.critical = some d → ∃ u, UpdatedAt s.table u ∧ u + 10 ≤ d) :
    Inv { setWorker s i w with holder := some i } := by
  refine ⟨fun j d hj => ?_, fun j d hj => ?_, h.last, h.spaced⟩
  · simp only [setWorker, Function.update_apply] at hj
    split_ifs at hj with he
    · rw [he]
    · have hh := h.holds j d hj
      rw [hh] at hfree
      simp only [ne_eq, reduceCtorEq, not_false_eq_true, true_and, not_not, Option.some.injEq] at hfree
      exact absurd hfree he
  · simp only [setWorker, Function.update_apply] at hj
    split_ifs at hj with he
    · exact hw d hj
    · exact h.due j d hj

theorem endTx_critical {s : St} {i j : ℕ} {d : ℤ} (hj : ((endTx s i).workers j).critical = some d) :
    j ≠ i ∧ (s.workers j).critical = some d := by
  simp only [endTx, setWorker, Function.update_apply] at hj
  split_ifs at hj with he
  · simp [Worker.critical] at hj
  · exact ⟨he, hj⟩

theorem inv_endTx {s : St} (h : Inv s) (i : ℕ) : Inv (endTx s i) := by
  refine ⟨fun j d hj => ?_, fun j d hj => h.due j d (endTx_critical hj).2, h.last, h.spaced⟩
  obtain ⟨hne, hj⟩ := endTx_critical hj
  have hh := h.holds j d hj
  simp only [endTx, hh]
  rw [if_neg]
  simpa using hne

theorem inv_commit {s : St} (h : Inv s) (i : ℕ) (d : ℤ) (hi : s.workers i = .updated d) :
    Inv { endTx s i with table := setUpdatedAt d s.table, runs := ⟨d, d⟩ :: s.runs } := by
  have hc : (s.workers i).critical = some d := by rw [hi]; rfl
  obtain ⟨u, hu, hud⟩ := h.due i d hc
  have hnone : ∀ j d', ((endTx s i).workers j).critical = some d' → False := by
    intro j d' hj
    obtain ⟨hne, hj⟩ := endTx_critical hj
    have := (h.holds j d' hj).symm.trans (h.holds i d hc)
    exact hne (Option.some.inj this)
  refine ⟨fun j d' hj => (hnone j d' hj).elim, fun j d' hj => (hnone j d' hj).elim, ?_, ?_⟩
  · intro r hr
    simp only [List.head?_cons, Option.mem_some_iff] at hr
    subst hr
    exact updatedAt_set hu
  · rw [List.isChain_cons]
    refine ⟨fun r hr => ?_, h.spaced⟩
    rw [updatedAt_unique (h.last r hr) hu]; exact hud

theorem step_inv (s : St) (o : Op) (h : Inv s) : Inv (step s o) := by
  cases o with
  | advance days => exact ⟨h.holds, h.due, h.last, h.spaced⟩
  | begin i =>
    simp only [step]
    split
    · exact inv_setWorker h i _ (Or.inl rfl)
    · exact h
  | scan i =>
    simp only [step]
    split
    · split_ifs
      · exact inv_setWorker h i _ (Or.inl rfl)
      · exact inv_setWorker h i _ (Or.inl rfl)
    · exact h
  | lock i =>
    simp only [step]
    split
    · rename_i d hd
      split_ifs with h1 h2
      · exact inv_endTx h i
      · apply inv_take h i _ h1
        intro d' hd'
        simp only [Worker.critical, Option.some.injEq] at hd'
        subst hd'
        exact (due_iff s.table d).1 h2
      · exact inv_take h i _ h1 fun d' hd' => by simp [Worker.critical] at hd'
    · exact h
  | update i =>
    simp only [step]
    split
    · rename_i d hd
      exact inv_setWorker h i _ (Or.inr (by rw [hd]; rfl))
    · exact h
  | commit i =>
    simp only [step]
    split
    · rename_i d hd
      exact inv_commit h i d hd
    · exact inv_endTx h i
    · exact h
  | rollback i => exact inv_endTx h i

/-! ## updated_at never decreases -/

/-- the row is still there, and its date is no earlier -/
def UpdatedAtLe (s t : St) : Prop := ∀ d, UpdatedAt s.table d → ∃ d', UpdatedAt t.table d' ∧ d ≤ d'

theorem UpdatedAtLe.refl (s : St) : UpdatedAtLe s s := fun d h => ⟨d, h, le_rfl⟩

theorem UpdatedAtLe.trans (s t u : St) (h1 : UpdatedAtLe s t) (h2 : UpdatedAtLe t u) : UpdatedAtLe s u := by
  intro d h
  obtain ⟨d1, h, hle⟩ := h1 d h
  obtain ⟨d2, h, hle'⟩ := h2 d1 h
  exact ⟨d2, h, hle.trans hle'⟩

/-- only a commit writes the table -/
theorem step_table (s : St) (o : Op) : (step s o).table = s.table ∨
    ∃ i d, o = .commit i ∧ s.workers i = .updated d ∧ (step s o).table = setUpdatedAt d s.table := by
  cases o with
  | commit i =>
    simp only [step]
    split
    · rename_i d hd; exact Or.inr ⟨i, d, rfl, hd, rfl⟩
    · exact Or.inl rfl
    · exact Or.inl rfl
  | _ =>
    left
    simp only [step]
    repeat' split
    all_goals rfl

theorem step_updatedAtLe (s : St) (o : Op) (h : Inv s) : UpdatedAtLe s (step s o) := by
  intro d hd
  rcases step_table s o with he | ⟨i, d', rfl, hi, he⟩
  · rw [he]; exact ⟨d, hd, le_rfl⟩
  · rw [he]
    obtain ⟨u, hu, hle⟩ := h.due i d' (by rw [hi]; rfl)
    have : d = u := updatedAt_unique hd hu
    exact ⟨d', updatedAt_set hu, by omega⟩

/-- **process_lock excludes and spaces its users.** Whatever rows the table starts with, and however begins, selects,
updates, commits, rollbacks and the passing of days interleave: at most one worker is critical, updated_at never
decreases from any point of the run to any later one, each committed run's current_date is at least 10 days after
the updated_at that the committed run before it left, and what the last one left is what the table holds. -/
theorem process_lock_exclusive (today : ℤ) (t : Table) (ops : List Op) :
    (∀ i j, ((run step (init today t) ops).workers i).critical ≠ none →
      ((run step (init today t) ops).workers j).critical ≠ none → i = j) ∧
    (∀ more, UpdatedAtLe (run step (init today t) ops) (run step (init today t) (ops ++ more))) ∧
    ((run step (init today t) ops).runs.IsChain fun next prev => prev.left + 10 ≤ next.currentDate) ∧
    ∀ r ∈ (run step (init today t) ops).runs.head?, UpdatedAt (run step (init today t) ops).table r.left := by
  have h := run_inv step_inv (init today t) ops (inv_init today t)
  refine ⟨fun i j hi hj => ?_, fun more => ?_, h.spaced, h.last⟩
  · obtain ⟨d, hd⟩ := Option.ne_none_iff_exists'.1 hi
    obtain ⟨d', hd'⟩ := Option.ne_none_iff_exists'.1 hj
    exact Option.some.inj ((h.holds i d hd).symm.trans (h.holds j d' hd'))
  · rw [run_append]
    exact run_mono step_inv UpdatedAtLe.refl UpdatedAtLe.trans step_updatedAtLe _ more h

/-- the seed row: sixty days before the database was built -/
def seed (today : ℤ) : Table := ⟨[⟨dataDictionary, today - 60⟩], by simp⟩

/-- worker 1 begins on day 100 and selects only on day 130, after worker 0 committed on day 120: no row for it -/
example : ((run step (init 100 (seed 100)) [.begin 1, .advance 20, .begin 0, .scan 0, .lock 0, .update 0, .commit 0,
    .advance 10, .scan 1]).workers 1) = .noRow 100 := by decide

end IconSetup.ProcessLock
