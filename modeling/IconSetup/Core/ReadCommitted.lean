/-
Tables under READ COMMITTED. A committed row carries a version number that is never used again. What an open
transaction has done to a table is a `Delta`: the versions it deleted and the rows it inserted. A statement sees the
committed rows of the moment less the transaction's own deletions, and its own insertions (`visible`); commit applies
the delta to the committed rows of that moment, which other transactions may have changed since.

- `visible_empty`, `visible_deleteAll`, `visible_insert`: what is visible after each statement.
- `contents_commit`: what a commit leaves is what the transaction sees when it commits.
-/
import Mathlib.Tactic

namespace IconSetup.ReadCommitted

structure Table (α : Type) where
  rows : List (ℕ × α)
  /-- the next version number -/
  next : ℕ
deriving DecidableEq, Repr

structure Delta (α : Type) where
  dead : List ℕ
  born : List α
deriving DecidableEq, Repr

variable {α : Type}

def number (next : ℕ) (rows : List α) : List (ℕ × α) := (rows.zipIdx next).map Prod.swap

def Table.ofList (rows : List α) : Table α := ⟨number 0 rows, rows.length⟩

def contents (t : Table α) : List α := t.rows.map Prod.snd

def Delta.empty : Delta α := ⟨[], []⟩

def survivors (t : Table α) (d : Delta α) : List (ℕ × α) := t.rows.filter (·.1 ∉ d.dead)

def visible (t : Table α) (d : Delta α) : List α := (survivors t d).map Prod.snd ++ d.born

/-- DELETE without a WHERE -/
def deleteAll (t : Table α) (d : Delta α) : Delta α := ⟨d.dead ++ t.rows.map Prod.fst, []⟩

def Delta.insert (d : Delta α) (rows : List α) : Delta α := { d with born := d.born ++ rows }

def commit (t : Table α) (d : Delta α) : Table α :=
  ⟨survivors t d ++ number t.next d.born, t.next + d.born.length⟩

@[simp] theorem number_snd (next : ℕ) (rows : List α) : (number next rows).map Prod.snd = rows := by
  rw [number, List.map_map, show Prod.snd ∘ Prod.swap = (Prod.fst : α × ℕ → α) from rfl, List.zipIdx_map_fst]

@[simp] theorem contents_ofList (rows : List α) : contents (Table.ofList rows) = rows := number_snd 0 rows

/-- a transaction that deleted nothing sees the committed rows and its own -/
theorem visible_born (t : Table α) (rows : List α) : visible t ⟨[], rows⟩ = contents t ++ rows := by
  rw [visible, survivors, List.filter_eq_self.2 (by simp), contents]

@[simp] theorem visible_empty (t : Table α) : visible t Delta.empty = contents t := by
  rw [Delta.empty, visible_born, List.append_nil]

@[simp] theorem visible_deleteAll (t : Table α) (d : Delta α) : visible t (deleteAll t d) = [] := by
  have h : survivors t (deleteAll t d) = [] := by
    apply List.filter_eq_nil_iff.2
    intro x hx
    simp only [deleteAll, List.mem_append, not_or, decide_eq_true_eq, not_and, not_not]
    intro _
    exact List.mem_map_of_mem hx
  rw [visible, h]
  rfl

@[simp] theorem visible_insert (t : Table α) (d : Delta α) (rows : List α) :
    visible t (d.insert rows) = visible t d ++ rows := (List.append_assoc _ _ _).symm

@[simp] theorem contents_commit (t : Table α) (d : Delta α) : contents (commit t d) = visible t d := by
  rw [contents, commit, List.map_append, number_snd, visible]

end IconSetup.ReadCommitted
