/-
One client session that sends commands to a database: statements, and the two that open and close a transaction block.
Outside a block every statement is a transaction of its own. Inside one, the first statement that fails undoes the block;
the statements after it are refused, and the COMMIT at its end is a rollback.

Not everything is undone: numbers taken from a sequence stay taken. So a failing statement says what it leaves, and
`undo saved now` says what is left of the state `now` when the state `saved` is restored.

- `execAll_keeps`, `run_keeps`: what every statement keeps, failing or not, many of them keep, and so does the session.
-/
import Mathlib.Tactic
import IconSetup.Core.Run

namespace IconSetup.Session

open IconSetup.Run

/-- START TRANSACTION, COMMIT, or another statement -/
inductive Command (S : Type) where
  | begin
  | commit
  | stmt (s : S)
deriving DecidableEq, Repr

inductive State (D : Type) where
  | idle (db : D)
  /-- in a block, which began with `saved` -/
  | block (saved now : D)
  /-- in a block that has failed -/
  | failed (left : D)
deriving DecidableEq, Repr

theorem bind_ok {ε α β : Type} {e : Except ε α} {f : α → Except ε β} {b : β} :
    e.bind f = .ok b ↔ ∃ a, e = .ok a ∧ f a = .ok b := by
  cases e with
  | ok a => exact ⟨fun h => ⟨a, rfl, h⟩, fun ⟨_, h1, h2⟩ => Except.ok.inj h1 ▸ h2⟩
  | error left => exact ⟨fun h => (by cases h), fun ⟨_, h1, _⟩ => (by cases h1)⟩

section
variable {D S : Type} (exec : D → S → Except D D) (undo : D → D → D)

/-- what a statement leaves, whether it fails or not -/
def result : Except D D → D
  | .ok db => db
  | .error db => db

def step : State D → Command S → State D
  | .idle db, .begin => .block db db
  | .idle db, .commit => .idle db
  | .idle db, .stmt s => .idle (result (exec db s))
  | .block saved now, .begin => .block saved now
  | .block _ now, .commit => .idle now
  | .block saved now, .stmt s =>
    match exec now s with
    | .ok db => .block saved db
    | .error left => .failed (undo saved left)
  | .failed left, .begin => .failed left
  | .failed left, .commit => .idle left
  | .failed left, .stmt _ => .failed left

/-- the end of the session: an open block is undone -/
def close : State D → D
  | .idle db => db
  | .block saved now => undo saved now
  | .failed left => left

/-- the statements one after the other, up to the first that fails -/
def execAll (db : D) (stmts : List S) : Except D D := stmts.foldlM exec db

theorem execAll_nil (db : D) : execAll exec db [] = .ok db := rfl

theorem execAll_cons (db : D) (s : S) (stmts : List S) :
    execAll exec db (s :: stmts) = (exec db s).bind fun db' => execAll exec db' stmts := rfl

theorem execAll_append (db : D) (a b : List S) :
    execAll exec db (a ++ b) = (execAll exec db a).bind fun db' => execAll exec db' b := by
  rw [execAll, List.foldlM_append]
  rfl

/-- what each of the statements keeps, failing or not, they keep together -/
theorem execAll_keeps {P : D → Prop} {stmts : List S} (h : ∀ s ∈ stmts, ∀ db, P db → P (result (exec db s))) {db : D}
    (hdb : P db) : P (result (execAll exec db stmts)) := by
  induction stmts generalizing db with
  | nil => exact hdb
  | cons s stmts ih =>
    have hs := h s List.mem_cons_self db hdb
    rw [execAll_cons]
    cases hr : exec db s with
    | ok db' =>
      rw [hr] at hs
      exact ih (fun s' hs' => h s' (List.mem_cons_of_mem s hs')) hs
    | error left =>
      rw [hr] at hs
      exact hs

/-- statements outside a block, each on its own -/
theorem idle_run (db : D) (stmts : List S) :
    run (step exec undo) (.idle db) (stmts.map .stmt) =
      .idle (run (fun db s => result (exec db s)) db stmts) := by
  induction stmts generalizing db with
  | nil => rfl
  | cons s stmts ih => exact ih (result (exec db s))

/-! ## What is kept -/

/-- the property holds of what the session has in hand and of what it would go back to -/
def Keeps (P : D → Prop) : State D → Prop
  | .idle db => P db
  | .block saved now => P saved ∧ P now
  | .failed left => P left

section
variable {exec undo} {P : D → Prop} (hundo : ∀ saved now, P saved → P now → P (undo saved now))
include hundo

theorem step_keeps {st : State D} {c : Command S} (hexec : ∀ s, c = .stmt s → ∀ db, P db → P (result (exec db s)))
    (h : Keeps P st) : Keeps P (step exec undo st c) := by
  cases st with
  | idle db =>
    cases c with
    | begin => exact ⟨h, h⟩
    | commit => exact h
    | stmt s => exact hexec s rfl db h
  | block saved now =>
    cases c with
    | begin => exact h
    | commit => exact h.2
    | stmt s =>
      have hs := hexec s rfl now h.2
      simp only [step]
      cases hr : exec now s with
      | ok db =>
        rw [hr] at hs
        exact ⟨h.1, hs⟩
      | error left =>
        rw [hr] at hs
        exact hundo saved left h.1 hs
  | failed left => cases c <;> exact h

theorem run_keeps {st : State D} {cs : List (Command S)}
    (hexec : ∀ s, .stmt s ∈ cs → ∀ db, P db → P (result (exec db s))) (h : Keeps P st) :
    Keeps P (run (step exec undo) st cs) := by
  induction cs generalizing st with
  | nil => exact h
  | cons c cs ih =>
    have hstep := step_keeps hundo (fun s hs => hexec s (hs ▸ List.mem_cons_self)) h
    exact ih (fun s hs => hexec s (List.mem_cons_of_mem c hs)) hstep

theorem close_keeps {st : State D} (h : Keeps P st) : P (close undo st) := by
  cases st with
  | idle db => exact h
  | block saved now => exact hundo saved now h.1 h.2
  | failed left => exact h

end

end

end IconSetup.Session
