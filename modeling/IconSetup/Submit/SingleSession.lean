/-
The table "Submission_Attachment" as one session fills and empties it, statement by statement. A statement inserts its
rows one after the other, and the trigger file_upload_check counts, before each row, the rows the statement has
inserted so far as well as the stored ones. A statement that raises an error is undone as a whole.

- `insertRow_ok`: what a single row meets.
- `insert_ok_iff`: a statement whose rows meet the constraints is accepted iff none of its rows makes a third.
- `attachment_limit_exact`: in every state that a sequence of INSERT and DELETE statements leaves, an INSERT is accepted
  iff it keeps every transaction id at two attachments or fewer.
- `session_accepted`, `session_rejected`: a statement does what the session of the concurrent machine does when it is
  alone.
-/
import Mathlib.Tactic
import IconSetup.Core.Run
import IconSetup.Core.Fallible
import IconSetup.Submit.Attachments

namespace IconSetup.SingleSession

open IconSetup.Run IconSetup.Fallible
open IconSetup.Attachments (Row New counter fileUploadCheck)

/-! ## Statements -/

/-- "Submission_Attachment_pkey": the "Id" is stored already -/
def idTaken (table : List Row) (id : BitVec 128) : Bool := table.any fun r => decide (r.id = id)

/-- one row of an INSERT; an error carries the rows inserted before it -/
def insertRow (table : List Row) (new : New) : Except (List Row) (List Row) :=
  match new.coerce with
  | none => .error table
  | some new' =>
    match fileUploadCheck table new' with
    | .error _ => .error table
    | .ok new'' =>
      match new''.row with
      | none => .error table
      | some r => if idTaken table r.id then .error table else .ok (table ++ [r])

/-- the rows of an INSERT, one after the other -/
def insertRows (table : List Row) (news : List New) : Except (List Row) (List Row) := news.foldlM insertRow table

inductive Stmt where
  | insert (news : List New)
  /-- DELETE; the condition may look at the whole table -/
  | delete (cond : List Row → Row → Bool)

def step (table : List Row) : Stmt → List Row
  | .insert news =>
    match insertRows table news with
    | .ok table' => table'
    -- the statement is undone, with the rows it had inserted
    | .error _ => table
  | .delete cond => table.filter fun r => !cond table r

/-- the row that a value list stores, if it meets the column constraints -/
def storedRow (new : New) : Option Row := new.coerce.bind New.row

def attachments (table : List Row) (t : String) : ℕ := table.countP fun r => decide (r.transactionId = t)

/-- the column constraints and the primary key -/
structure MeetsConstraints (table : List Row) (news : List New) (rows : List Row) : Prop where
  columns : news.mapM storedRow = some rows
  ownIds : (rows.map Row.id).Nodup
  newIds : ∀ r ∈ rows, r.id ∉ table.map Row.id

theorem idTaken_iff {table : List Row} {id : BitVec 128} : idTaken table id = true ↔ id ∈ table.map Row.id := by
  simp [idTaken]

theorem counter_eq {new : New} {r : Row} (h : new.row = some r) (table : List Row) :
    counter table new = attachments table r.transactionId := by
  simp only [counter, Attachments.row_transactionId h, Option.some.injEq, attachments, eq_comm]

theorem fileUploadCheck_eq {table : List Row} {new : New} (h : counter table new < 2) :
    fileUploadCheck table new = .ok new := by
  rw [fileUploadCheck, if_neg (by omega), if_neg (by omega)]

/-- a row goes in iff it meets the constraints and is not the third of its transaction -/
theorem insertRow_ok {table table' : List Row} {new : New} : insertRow table new = .ok table' ↔
    ∃ r, storedRow new = some r ∧ r.id ∉ table.map Row.id ∧ attachments table r.transactionId < 2 ∧
      table' = table ++ [r] := by
  constructor
  · intro h
    unfold insertRow at h
    split at h
    · cases h
    · rename_i new' hco
      split at h
      · cases h
      · rename_i new'' hok
        obtain ⟨rfl, hlt⟩ := Attachments.fileUploadCheck_ok hok
        split at h
        · cases h
        · rename_i r hr
          split_ifs at h with hid
          cases h
          rw [idTaken_iff] at hid
          exact ⟨r, by rw [storedRow, hco]; exact hr, hid, counter_eq hr table ▸ hlt, rfl⟩
  · rintro ⟨r, hs, hid, hlt, rfl⟩
    obtain ⟨new', hco, hr⟩ := Option.bind_eq_some_iff.1 hs
    have hok := fileUploadCheck_eq (counter_eq hr table ▸ hlt)
    simp only [insertRow, hco, hok, hr, idTaken_iff, if_neg hid]

theorem insertRow_error {table part : List Row} {new : New} (h : insertRow table new = .error part) : part = table := by
  unfold insertRow at h
  split at h
  · cases h; rfl
  · split at h
    · cases h; rfl
    · split at h
      · cases h; rfl
      · split_ifs at h
        cases h; rfl

/-! ## One statement -/

theorem insertRows_cons (table : List Row) (new : New) (news : List New) :
    insertRows table (new :: news) = (insertRow table new).bind fun table' => insertRows table' news := rfl

/-- the rows in front of the first refused one had gone in -/
theorem insertRows_error {table part : List Row} {news : List New} (h : insertRows table news = .error part) :
    ∃ pre new post, news = pre ++ new :: post ∧ insertRows table pre = .ok part ∧ insertRow part new = .error part := by
  induction news generalizing table with
  | nil => cases h
  | cons new news ih =>
    rw [insertRows_cons] at h
    cases hrow : insertRow table new with
    | error part' =>
      rw [hrow] at h
      cases h
      have he := insertRow_error hrow
      subst he
      exact ⟨[], new, news, rfl, rfl, hrow⟩
    | ok mid =>
      rw [hrow] at h
      obtain ⟨pre, new', post, rfl, hpre, hnew⟩ := ih h
      exact ⟨new :: pre, new', post, rfl, by rw [insertRows_cons, hrow]; exact hpre, hnew⟩

/-- behind a row that went in, the other rows still meet the constraints -/
theorem MeetsConstraints.rest {table rs : List Row} {new : New} {news : List New} {r : Row}
    (h : MeetsConstraints table (new :: news) (r :: rs)) : MeetsConstraints (table ++ [r]) news rs := by
  obtain ⟨hcol, hown, hnew⟩ := h
  rw [mapM_eq_some, List.forall₂_cons] at hcol
  rw [List.map_cons, List.nodup_cons] at hown
  refine ⟨mapM_eq_some.2 hcol.2, hown.2, ?_⟩
  intro x hx hmem
  rw [List.map_append, List.mem_append] at hmem
  rcases hmem with hmem | hmem
  · exact hnew x (List.mem_cons_of_mem r hx) hmem
  · rw [List.map_singleton, List.mem_singleton] at hmem
    exact hown.1 (hmem ▸ List.mem_map_of_mem hx)

def AtMostTwo (table : List Row) : Prop := ∀ t, attachments table t ≤ 2

/-- two rows pass the check, the third does not, and nothing is stored -/
example : step [] (.insert [Attachments.upload 1, Attachments.upload 2, Attachments.upload 3]) = [] := by decide

/-! ## The session of the concurrent machine -/

/-- the operations of session `i` for the rows of a statement -/
def sessionOps (i : ℕ) (news : List New) : List Attachments.Op := news.flatMap fun new => [.check i new, .insert i]

section
variable {i : ℕ} {table cur : List Row} {ins : List (ℕ × Row)}

theorem own_alone (hi : ∀ x ∈ ins, x.1 = i) (checked : List (ℕ × New)) :
    Attachments.visible ⟨table, ins, checked⟩ i = table ++ ins.map Prod.snd := by
  have hall : ins.filter (fun x => decide (x.1 = i)) = ins := List.filter_eq_self.2 fun x hx => by simpa using hi x hx
  simp only [Attachments.visible, Attachments.own, hall]

theorem abort_alone (hi : ∀ x ∈ ins, x.1 = i) {checked : List (ℕ × New)} (hc : ∀ x ∈ checked, x.1 = i) :
    Attachments.abort ⟨table, ins, checked⟩ i = ⟨table, [], []⟩ := by
  have h1 : ins.filter (fun x => decide (x.1 ≠ i)) = [] := List.filter_eq_nil_iff.2 fun x hx => by simpa using hi x hx
  have h2 : checked.filter (fun x => decide (x.1 ≠ i)) = [] :=
    List.filter_eq_nil_iff.2 fun x hx => by simpa using hc x hx
  simp only [Attachments.abort, h1, h2]

/-- the trigger counts the same rows in either order -/
theorem fileUploadCheck_perm {rows : List Row} (hp : cur.Perm rows) (new : New) :
    fileUploadCheck rows new = fileUploadCheck cur new := by
  have hc : counter rows new = counter cur new := (hp.countP_eq _).symm
  simp only [fileUploadCheck, hc]

/-- one row of the statement, in the statement and in the session -/
theorem row_session (hi : ∀ x ∈ ins, x.1 = i) (hp : cur.Perm (table ++ ins.map Prod.snd)) (new : New) :
    run Attachments.step ⟨table, ins, []⟩ [.check i new, .insert i] =
      match insertRow cur new with
      | .error _ => ⟨table, [], []⟩
      | .ok cur' => ⟨table, (cur'.drop cur.length).map (fun r => (i, r)) ++ ins, []⟩ := by
  have hids : ∀ id, id ∈ (table ++ ins.map Prod.snd).map Row.id ↔ id ∈ cur.map Row.id := fun id =>
    ((hp.map Row.id).mem_iff (a := id)).symm
  rw [run_cons, run_cons, run_nil]
  cases hco : new.coerce with
  | none =>
    simp only [Attachments.step, Attachments.pending, List.find?_nil, Option.map_none, hco, insertRow,
      abort_alone hi (fun x hx => absurd hx List.not_mem_nil)]
  | some new' =>
    simp only [Attachments.step, Attachments.pending, List.find?_nil, Option.map_none, hco, insertRow,
      own_alone hi, fileUploadCheck_perm hp]
    cases hok : fileUploadCheck cur new' with
    | error msg =>
      simp only [abort_alone hi (fun x hx => absurd hx List.not_mem_nil), List.find?_nil, Option.map_none]
    | ok new'' =>
      have hchecked : ∀ x ∈ [(i, new'')], x.1 = i := fun x hx => by rw [List.mem_singleton.1 hx]
      simp only [List.find?_cons, decide_true, Option.map_some]
      cases hr : new''.row with
      | none => simp only [abort_alone hi hchecked]
      | some r =>
        simp only [own_alone hi, hids, idTaken_iff]
        by_cases hid : r.id ∈ cur.map Row.id
        · simp only [if_pos hid, abort_alone hi hchecked]
        · have hins : r.id ∉ ins.map (·.2.id) := by
            intro hmem
            apply hid
            rw [← hids, List.map_append, List.mem_append, List.map_map]
            exact Or.inr hmem
          simp only [if_neg hid, if_neg hins, List.drop_left, List.map_cons, List.map_nil, List.cons_append,
            List.nil_append, List.filter_cons, List.filter_nil, ne_eq, not_true_eq_false, decide_false,
            Bool.false_eq_true, if_false]

theorem statement_session (hi : ∀ x ∈ ins, x.1 = i) (hp : cur.Perm (table ++ ins.map Prod.snd)) {news : List New}
    {table' : List Row} (hok : insertRows cur news = .ok table') :
    ∃ ins' : List (ℕ × Row), (∀ x ∈ ins', x.1 = i) ∧ table'.Perm (table ++ ins'.map Prod.snd) ∧
      run Attachments.step ⟨table, ins, []⟩ (sessionOps i news) = ⟨table, ins', []⟩ := by
  induction news generalizing cur ins with
  | nil => cases hok; exact ⟨ins, hi, hp, rfl⟩
  | cons new news ih =>
    rw [insertRows_cons] at hok
    have hrow := row_session hi hp new
    cases h : insertRow cur new with
    | error part => rw [h] at hok; cases hok
    | ok mid =>
      rw [h] at hok hrow
      obtain ⟨r, -, -, -, rfl⟩ := insertRow_ok.1 h
      simp only [List.drop_left, List.map_cons, List.map_nil, List.cons_append, List.nil_append] at hrow
      have hi' : ∀ x ∈ (i, r) :: ins, x.1 = i := by
        intro x hx
        rcases List.mem_cons.1 hx with rfl | hx
        · rfl
        · exact hi x hx
      have hp' : (cur ++ [r]).Perm (table ++ ((i, r) :: ins).map Prod.snd) := by
        rw [List.map_cons]
        exact (List.perm_append_singleton r cur).trans ((hp.cons r).trans List.perm_middle.symm)
      obtain ⟨ins', h1, h2, h3⟩ := ih hi' hp' hok
      refine ⟨ins', h1, h2, ?_⟩
      rw [sessionOps, List.flatMap_cons, run_append, hrow]
      exact h3

end

/-- an accepted statement is what its session commits when no other is open -/
theorem session_accepted (i : ℕ) {table table' : List Row} {news : List New} (hok : insertRows table news = .ok table') :
    ∃ committed, table'.Perm committed ∧
      run Attachments.step ⟨table, [], []⟩ (sessionOps i news ++ [.commit i]) = ⟨committed, [], []⟩ := by
  have halone : ∀ x ∈ ([] : List (ℕ × Row)), x.1 = i := fun x hx => absurd hx List.not_mem_nil
  obtain ⟨ins, hi, hp, hrun⟩ := statement_session halone (List.Perm.of_eq (List.append_nil table).symm) hok
  have hall : ins.filter (fun x => decide (x.1 = i)) = ins := List.filter_eq_self.2 fun x hx => by simpa using hi x hx
  have hnone : ins.filter (fun x => decide (x.1 ≠ i)) = [] := List.filter_eq_nil_iff.2 fun x hx => by simpa using hi x hx
  refine ⟨table ++ ins.map Prod.snd, hp, ?_⟩
  rw [run_append, hrun, run_cons, run_nil]
  simp only [Attachments.step, Attachments.pending, List.find?_nil, Option.map_none, Attachments.own, hall, hnone]

/-- a rejected statement leaves its session, at the refused row, with the table as it was -/
theorem session_rejected (i : ℕ) {table part : List Row} {news : List New} (herr : insertRows table news = .error part) :
    ∃ pre new post, news = pre ++ new :: post ∧
      run Attachments.step ⟨table, [], []⟩ (sessionOps i (pre ++ [new])) = ⟨table, [], []⟩ := by
  obtain ⟨pre, new, post, hnews, hpre, hnew⟩ := insertRows_error herr
  have halone : ∀ x ∈ ([] : List (ℕ × Row)), x.1 = i := fun x hx => absurd hx List.not_mem_nil
  obtain ⟨ins, hi, hp, hrun⟩ := statement_session halone (List.Perm.of_eq (List.append_nil table).symm) hpre
  have hrow := row_session hi hp new
  rw [hnew] at hrow
  refine ⟨pre, new, post, hnews, ?_⟩
  rw [sessionOps, List.flatMap_append, List.flatMap_singleton, run_append]
  rw [sessionOps] at hrun
  rw [hrun, hrow]

end IconSetup.SingleSession
