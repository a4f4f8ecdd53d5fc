/-
The domain prevalence_range, and the three columns it is meant to guard, over runs of INSERT, COPY and UPDATE
statements on agents, trades and diseases.

The domain's check is `VALUE >= 1 AND VALUE <= 9 OR NULL`. AND binds tighter than OR, and the last operand is the
constant NULL, not `VALUE IS NULL`: the condition is the range test OR unknown. A CHECK refuses only FALSE, and a
condition OR unknown is never FALSE, so the domain takes every smallint.

- `prevalenceRange_accepts`: the domain takes every value.
- `exec_cases`: what an accepted statement does. `step_keys`: every statement keeps the keys.
- `prevalence_columns_in_range`: for one value, "accepted iff NULL or in 1..9" holds exactly when the value is NULL
  or in 1..9; and along every run whose statements write only such values the three columns stay in range.
- `out_of_range_stored`: an agent with prevalence_index 10 is stored.
-/
import Mathlib.Tactic
import IconSetup.Core.Run
import IconSetup.Core.Ternary
import IconSetup.Core.Dml
import IconSetup.Lookup.Schema

namespace IconSetup.Prevalence

open IconSetup.Ternary IconSetup.Dml IconSetup.Schema IconSetup.Run

/-! ## The domain -/

/-- `CHECK (VALUE >= 1 AND VALUE <= 9 OR NULL)` on a smallint -/
def prevalenceRange (value : Option Int16) : Tri :=
  or3 (and3 (cmp (fun a b => decide (b ≤ a)) value (some 1)) (cmp (fun a b => decide (a ≤ b)) value (some 9))) none

/-- a value may be stored in a column of the domain -/
def accepts (value : Option Int16) : Bool := passes (prevalenceRange value)

/-- NULL or between 1 and 9 -/
def InRange (value : Option Int16) : Prop := ∀ v ∈ value, 1 ≤ v ∧ v ≤ 9

instance (value : Option Int16) : Decidable (InRange value) := Option.decidableForallMem value

theorem prevalenceRange_accepts (value : Option Int16) : accepts value = true := passes_or_unknown _

/-! ## Statements -/

/-- a statement on one of the three tables -/
inductive Op where
  | trades (d : Stmt Trade)
  | agents (d : Stmt Agent)
  | diseases (d : Stmt Disease)

/-- The statement's result, or `none` when it is refused. Each row it writes is coerced to the column's domain and
its key is checked; the foreign keys are checked once the rows are in. -/
def exec (db : Db) : Op → Option Db
  | .trades d =>
    match Dml.exec Trade.snomed (fun r => accepts r.prevalenceIndex) db.trades d with
    | none => none
    | some tab => if ForeignKeys { db with trades := tab } then some { db with trades := tab } else none
  | .agents d =>
    match Dml.exec Agent.snomed (fun r => accepts r.prevalenceIndex) db.agents d with
    | none => none
    | some tab => if ForeignKeys { db with agents := tab } then some { db with agents := tab } else none
  | .diseases d =>
    match Dml.exec Disease.snomed (fun r => accepts r.yellowCardOrder) db.diseases d with
    | none => none
    | some tab => if ForeignKeys { db with diseases := tab } then some { db with diseases := tab } else none

/-- a refused statement leaves the tables as they were -/
def step (db : Db) (o : Op) : Db := (exec db o).getD db

/-! ## The columns over a run -/

/-- the three guarded columns -/
structure ColumnsInRange (db : Db) : Prop where
  agents : ∀ a ∈ db.agents, InRange a.prevalenceIndex
  trades : ∀ t ∈ db.trades, InRange t.prevalenceIndex
  diseases : ∀ d ∈ db.diseases, InRange d.yellowCardOrder

/-- every value the statement gives to the column `col` is NULL or in 1..9; an UPDATE may leave a stored value -/
def WritesInRange {R : Type} (col : R → Option Int16) (tab : List R) : Stmt R → Prop
  | .insert rows => ∀ r ∈ rows, InRange (col r)
  | .copy rows => ∀ r ∈ rows, InRange (col r)
  | .update set => ∀ r ∈ tab, ∀ r', set r = some r' → InRange (col r') ∨ col r' = col r

/-- the condition on a statement, in the state it runs in -/
def Carries (db : Db) : Op → Prop
  | .trades d => WritesInRange Trade.prevalenceIndex db.trades d
  | .agents d => WritesInRange Agent.prevalenceIndex db.agents d
  | .diseases d => WritesInRange Disease.yellowCardOrder db.diseases d

theorem exec_written {R : Type} (key : R → ℤ) (ok : R → Bool) (col : R → Option Int16) (tab tab' : List R)
    (d : Stmt R) (hw : WritesInRange col tab d) (hi : ∀ r ∈ tab, InRange (col r))
    (h : Dml.exec key ok tab d = some tab') : ∀ r ∈ tab', InRange (col r) := by
  cases d with
  | insert rows | copy rows =>
    intro r hr
    rw [(insertRows_eq key ok tab rows tab' h).1] at hr
    rcases List.mem_append.1 hr with hr | hr
    · exact hi r hr
    · exact hw r hr
  | update set =>
    intro r hr
    rcases updateRows_mem key ok set [] tab tab' h r hr with hd | ⟨hm, -⟩ | ⟨r0, hm, hs, -⟩
    · simp at hd
    · exact hi r hm
    · rcases hw r0 hm r hs with hin | heq
      · exact hin
      · rw [heq]; exact hi r0 hm

/-- an accepted statement rewrites its own table and nothing else, and keeps the foreign keys -/
theorem exec_cases {db db' : Db} {o : Op} (h : exec db o = some db') : ForeignKeys db' ∧
    ((∃ d tab, o = .trades d ∧ db' = { db with trades := tab } ∧
        Dml.exec Trade.snomed (fun r => accepts r.prevalenceIndex) db.trades d = some tab) ∨
      (∃ d tab, o = .agents d ∧ db' = { db with agents := tab } ∧
        Dml.exec Agent.snomed (fun r => accepts r.prevalenceIndex) db.agents d = some tab) ∨
      ∃ d tab, o = .diseases d ∧ db' = { db with diseases := tab } ∧
        Dml.exec Disease.snomed (fun r => accepts r.yellowCardOrder) db.diseases d = some tab) := by
  cases o with
  | trades d =>
    simp only [exec] at h
    split at h
    · cases h
    · rename_i tab ht
      split_ifs at h with hf
      cases h
      exact ⟨hf, Or.inl ⟨d, tab, rfl, rfl, ht⟩⟩
  | agents d =>
    simp only [exec] at h
    split at h
    · cases h
    · rename_i tab ht
      split_ifs at h with hf
      cases h
      exact ⟨hf, Or.inr (Or.inl ⟨d, tab, rfl, rfl, ht⟩)⟩
  | diseases d =>
    simp only [exec] at h
    split at h
    · cases h
    · rename_i tab ht
      split_ifs at h with hf
      cases h
      exact ⟨hf, Or.inr (Or.inr ⟨d, tab, rfl, rfl, ht⟩)⟩

theorem step_inRange (db : Db) (o : Op) (h : ColumnsInRange db) (hc : Carries db o) : ColumnsInRange (step db o) := by
  unfold step
  cases he : exec db o with
  | none => exact h
  | some db' =>
    obtain ⟨-, ⟨d, tab, rfl, rfl, ht⟩ | ⟨d, tab, rfl, rfl, ht⟩ | ⟨d, tab, rfl, rfl, ht⟩⟩ := exec_cases he
    · exact ⟨h.agents, exec_written _ _ Trade.prevalenceIndex _ _ _ hc h.trades ht, h.diseases⟩
    · exact ⟨exec_written _ _ Agent.prevalenceIndex _ _ _ hc h.agents ht, h.trades, h.diseases⟩
    · exact ⟨h.agents, h.trades, exec_written _ _ Disease.yellowCardOrder _ _ _ hc h.diseases ht⟩

/-- the primary keys and foreign keys of the lookup tables survive every statement -/
theorem step_keys (db : Db) (o : Op) (h : Keys db) : Keys (step db o) := by
  unfold step
  cases he : exec db o with
  | none => exact h
  | some db' =>
    obtain ⟨hf, ⟨d, tab, rfl, rfl, ht⟩ | ⟨d, tab, rfl, rfl, ht⟩ | ⟨d, tab, rfl, rfl, ht⟩⟩ := exec_cases he
    · exact { h with tradesPkey := exec_keys _ _ _ _ d h.tradesPkey ht, foreign := hf }
    · exact { h with agentsPkey := exec_keys _ _ _ _ d h.agentsPkey ht, foreign := hf }
    · exact { h with diseasesPkey := exec_keys _ _ _ _ d h.diseasesPkey ht, foreign := hf }

/-- **The range holds exactly for what is already in range.** On one value, the domain decides "NULL or in 1..9"
right exactly when the value is NULL or in 1..9. Along every run of statements that write only such values, from any
state whose columns are in range, the columns stay in range. -/
theorem prevalence_columns_in_range (db : Db) (ops : List Op) (h : ColumnsInRange db) (hc : Along step Carries db ops) :
    (∀ value, (accepts value = true ↔ InRange value) ↔ InRange value) ∧ ColumnsInRange (run step db ops) := by
  refine ⟨fun value => ?_, run_inv_along step_inRange db ops h hc⟩
  simp [prevalenceRange_accepts]

/-- an agent of the highest prevalence the range allows, and one past it -/
def agent9 : Agent := ⟨1, none, none, none, none, some true, some 9, none, none, none, none⟩

def agent10 : Agent := { agent9 with snomed := 2, prevalenceIndex := some 10 }

theorem prevalence_columns_in_range_insert :
    ColumnsInRange (run step empty [.agents (.insert [agent9])]) :=
  (prevalence_columns_in_range empty [.agents (.insert [agent9])] ⟨by simp [empty], by simp [empty], by simp [empty]⟩
    ⟨by simp [Carries, WritesInRange, InRange, agent9], trivial⟩).2

/-- **The domain refuses nothing.** Ten is accepted, and one INSERT into the empty database stores it. -/
theorem out_of_range_stored :
    ¬ (accepts (some 10) = true ↔ InRange (some 10)) ∧
    ¬ ∀ ops : List Op, ColumnsInRange (run step empty ops) := by
  refine ⟨by decide, fun h => ?_⟩
  have hm : agent10 ∈ (run step empty [.agents (.insert [agent10])]).agents := by decide
  have hr : ¬ InRange agent10.prevalenceIndex := by decide
  exact hr ((h [.agents (.insert [agent10])]).agents agent10 hm)

end IconSetup.Prevalence
