/-
The table "Submission_Attachment" with its trigger file_upload_check, for any number of client sessions under READ
COMMITTED. A statement inserts its rows one after the other; for each row

- `check`: the values are coerced to the column types and the trigger counts the rows of NEW."Transaction_Id" that
  it can see: the committed ones and those of its own transaction. From two on it raises its exception, which ends
  the transaction.
- `insert`: the row goes in, if it has no NULL in a NOT NULL column and a new "Id". An "Id" that another open
  transaction has inserted makes the statement wait.

Between the two the trigger holds no lock, so rows of other open transactions are missed.

- `Inv`: committed rows, inserted rows and rows past their check are at most two for each transaction id.
- `at_most_two`: along every run in which no trigger lets a row through that it would refuse if it saw every open
  transaction, at most two rows with one transaction id are ever committed.
- `three_attachments`: three sessions check, insert and commit, and three files are committed under one id.
-/
import Mathlib.Tactic
import IconSetup.Core.Run
import IconSetup.Core.Text

namespace IconSetup.Attachments

open IconSetup.Run IconSetup.Text

/-! ## Rows -/

/-- a row of "Submission_Attachment" -/
structure Row where
  id : BitVec 128
  transactionId : String
  originalFilename : String
  fileMimeType : String
  fileContent : Option (List UInt8)
  createdAt : ℤ
deriving DecidableEq, Repr

/-- NEW: the values of an INSERT, with the column defaults filled in -/
structure New where
  id : Option (BitVec 128)
  transactionId : Option String
  originalFilename : Option String
  fileMimeType : Option String
  fileContent : Option (List UInt8)
  createdAt : Option ℤ
deriving DecidableEq, Repr

/-- coercion to VARCHAR(50), VARCHAR(260) and VARCHAR(130), before the trigger fires -/
def New.coerce (new : New) : Option New :=
  match castVarchar 50 new.transactionId, castVarchar 260 new.originalFilename, castVarchar 130 new.fileMimeType with
  | some t, some f, some m => some { new with transactionId := t, originalFilename := f, fileMimeType := m }
  | _, _, _ => none

/-- the NOT NULL constraints, checked after the trigger -/
def New.row (new : New) : Option Row :=
  match new.id, new.transactionId, new.originalFilename, new.fileMimeType, new.createdAt with
  | some i, some t, some f, some m, some c => some ⟨i, t, f, m, new.fileContent, c⟩
  | _, _, _, _, _ => none

theorem row_transactionId {new : New} {r : Row} (h : new.row = some r) : new.transactionId = some r.transactionId := by
  unfold New.row at h
  split at h
  · rename_i ht _ _ _; cases h; exact ht
  · cases h

/-! ## The trigger -/

/-- `SELECT count(*) into counter_ ... WHERE "Transaction_Id" = NEW."Transaction_Id"`; equality with NULL is never
true -/
def counter (rows : List Row) (new : New) : ℕ := rows.countP fun r => decide (new.transactionId = some r.transactionId)

/-- the function file_upload_check on the rows it can see; counter_ is an integer -/
def fileUploadCheck (rows : List Row) (new : New) : Except String New :=
  if 2 ^ 31 ≤ counter rows new then .error "integer out of range"
  else if 2 ≤ counter rows new then
    .error "CONFLICT: There cannot be more than two files associated with a transaction id"
  else .ok new

theorem fileUploadCheck_ok {rows : List Row} {new new' : New} (h : fileUploadCheck rows new = .ok new') :
    new' = new ∧ counter rows new < 2 := by
  unfold fileUploadCheck at h
  split_ifs at h with h1 h2
  cases h
  exact ⟨rfl, by omega⟩

/-! ## Sessions -/

structure St where
  committed : List Row
  /-- rows of open transactions, with their session -/
  inserted : List (ℕ × Row)
  /-- rows that passed the trigger and are not inserted yet, with their session -/
  checked : List (ℕ × New)
deriving DecidableEq, Repr

inductive Op where
  | check (i : ℕ) (new : New)
  | insert (i : ℕ)
  | commit (i : ℕ)
  | rollback (i : ℕ)
deriving DecidableEq, Repr

def empty : St := ⟨[], [], []⟩

def own (s : St) (i : ℕ) : List Row := (s.inserted.filter (·.1 = i)).map Prod.snd

/-- what a statement of session `i` sees -/
def visible (s : St) (i : ℕ) : List Row := s.committed ++ own s i

/-- the row that session `i` is about to insert -/
def pending (s : St) (i : ℕ) : Option New := (s.checked.find? (·.1 = i)).map Prod.snd

def abort (s : St) (i : ℕ) : St :=
  { s with inserted := s.inserted.filter (·.1 ≠ i), checked := s.checked.filter (·.1 ≠ i) }

def step (s : St) : Op → St
  | .check i new =>
    match pending s i, new.coerce with
    -- the session is still inserting its previous row
    | some _, _ => s
    | none, none => abort s i
    | none, some new' =>
      match fileUploadCheck (visible s i) new' with
      | .error _ => abort s i
      | .ok new'' => { s with checked := (i, new'') :: s.checked }
  | .insert i =>
    match pending s i with
    | none => s
    | some new =>
      match new.row with
      | none => abort s i
      | some r =>
        -- "Submission_Attachment_pkey"
        if r.id ∈ (visible s i).map Row.id then abort s i
        else if r.id ∈ s.inserted.map (·.2.id) then s
        else { s with inserted := (i, r) :: s.inserted, checked := s.checked.filter (·.1 ≠ i) }
  | .commit i =>
    match pending s i with
    | some _ => s
    | none => { s with committed := s.committed ++ own s i, inserted := s.inserted.filter (·.1 ≠ i) }
  | .rollback i => abort s i

/-! ## At most two -/

/-- committed rows of the transaction id `t` -/
def files (s : St) (t : String) : ℕ := s.committed.countP (·.transactionId = t)

/-- committed, inserted and checked rows of the transaction id `t` -/
def held (s : St) (t : String) : ℕ :=
  files s t + s.inserted.countP (·.2.transactionId = t) + s.checked.countP (·.2.transactionId = some t)

def AtMostTwo (s : St) : Prop := ∀ t, files s t ≤ 2

def Inv (s : St) : Prop := ∀ t, held s t ≤ 2

theorem inv_empty : Inv empty := fun t => by simp [held, files, empty]

theorem Inv.atMostTwo {s : St} (h : Inv s) : AtMostTwo s := fun t => by
  have := h t
  unfold held at this
  omega

/-- A trigger that lets a row through would let it through as well if it counted the rows of every open
transaction. -/
def SeesAll (s : St) : Op → Prop
  | .check i new =>
    pending s i = none → ∀ new' ∈ new.coerce, counter (visible s i) new' < 2 → ∀ t ∈ new'.transactionId, held s t < 2
  | _ => True

instance (s : St) (o : Op) : Decidable (SeesAll s o) := by
  cases o <;> unfold SeesAll <;> infer_instance

theorem held_abort_le (s : St) (i : ℕ) (t : String) : held (abort s i) t ≤ held s t := by
  have h1 := (List.filter_sublist (p := fun x => decide (x.1 ≠ i)) (l := s.inserted)).countP_le
    (p := fun x => decide (x.2.transactionId = t))
  have h2 := (List.filter_sublist (p := fun x => decide (x.1 ≠ i)) (l := s.checked)).countP_le
    (p := fun x => decide (x.2.transactionId = some t))
  simp only [held, files, abort]
  omega

/-- a session's entries and the entries of the others are all the entries -/
theorem countP_session {α : Type} (l : List (ℕ × α)) (i : ℕ) (p : α → Bool) :
    l.countP (fun x => p x.2) =
      ((l.filter (·.1 = i)).map Prod.snd).countP p + (l.filter (·.1 ≠ i)).countP fun x => p x.2 := by
  induction l with
  | nil => rfl
  | cons x l ih =>
    by_cases hx : x.1 = i
    · simp only [List.countP_cons, ih, List.filter_cons, hx, decide_true, if_true, List.map_cons, ne_eq,
        not_true_eq_false, decide_false, Bool.false_eq_true, if_false]
      omega
    · simp only [List.countP_cons, ih, List.filter_cons, hx, decide_false, Bool.false_eq_true, if_false, ne_eq,
        not_false_eq_true, decide_true, if_true]
      omega

/-- a pending row leaves the checked rows -/
theorem countP_checked_remove {s : St} {i : ℕ} {new : New} (h : pending s i = some new) (p : New → Bool) :
    (s.checked.filter (·.1 ≠ i)).countP (fun x => p x.2) + (if p new then 1 else 0) ≤
      s.checked.countP fun x => p x.2 := by
  have hmem : new ∈ (s.checked.filter (·.1 = i)).map Prod.snd := by
    unfold pending at h
    obtain ⟨x, hx, rfl⟩ := Option.map_eq_some_iff.1 h
    refine List.mem_map_of_mem (List.mem_filter.2 ⟨List.mem_of_find?_eq_some hx, ?_⟩)
    simpa using List.find?_some hx
  have hpos : (if p new then 1 else 0) ≤ ((s.checked.filter (·.1 = i)).map Prod.snd).countP p := by
    split_ifs with hp
    · exact List.countP_pos_iff.2 ⟨new, hmem, hp⟩
    · exact Nat.zero_le _
  rw [countP_session s.checked i p]
  omega

theorem held_insert {s : St} {i : ℕ} {new : New} {r : Row} (hp : pending s i = some new) (hr : new.row = some r)
    (t : String) :
    held { s with inserted := (i, r) :: s.inserted, checked := s.checked.filter (·.1 ≠ i) } t ≤ held s t := by
  have h := countP_checked_remove hp fun n => decide (n.transactionId = some t)
  simp only [row_transactionId hr, Option.some.injEq, decide_eq_true_eq] at h
  simp only [held, files, List.countP_cons, decide_eq_true_eq]
  omega

theorem held_commit (s : St) (i : ℕ) (t : String) :
    held { s with committed := s.committed ++ own s i, inserted := s.inserted.filter (·.1 ≠ i) } t = held s t := by
  have h := countP_session s.inserted i fun r => decide (r.transactionId = t)
  simp only [held, files, own, List.countP_append]
  omega

theorem step_inv (s : St) (o : Op) (h : Inv s) (hc : SeesAll s o) : Inv (step s o) := by
  intro t
  cases o with
  | check i new =>
    simp only [step]
    split
    · exact h t
    · exact (held_abort_le s i t).trans (h t)
    · rename_i new' hpend hco
      split
      · exact (held_abort_le s i t).trans (h t)
      · rename_i new'' hok
        obtain ⟨rfl, hlt⟩ := fileUploadCheck_ok hok
        have hall := hc hpend new'' hco hlt
        by_cases ht : new''.transactionId = some t
        · have := hall t ht
          simp only [held, files, List.countP_cons, ht, decide_true, if_true] at this ⊢
          omega
        · have := h t
          simp only [held, files, List.countP_cons, ht, decide_false, Bool.false_eq_true, if_false] at this ⊢
          omega
  | insert i =>
    simp only [step]
    split
    · exact h t
    · rename_i new hpend
      split
      · exact (held_abort_le s i t).trans (h t)
      · rename_i r hr
        split_ifs with h1 h2
        · exact (held_abort_le s i t).trans (h t)
        · exact h t
        · exact (held_insert hpend hr t).trans (h t)
  | commit i =>
    simp only [step]
    split
    · exact h t
    · rw [held_commit]; exact h t
  | rollback i => exact (held_abort_le s i t).trans (h t)

/-- **At most two files a transaction id, as long as no check misses a row.** Along every run from the empty table,
of any number of sessions and any interleaving, in which every trigger that lets a row through would do so if it
counted the rows of every open transaction, at most two rows with one "Transaction_Id" are committed. -/
theorem at_most_two (ops : List Op) (hc : Along step SeesAll empty ops) : AtMostTwo (run step empty ops) :=
  (run_inv_along step_inv empty ops inv_empty hc).atMostTwo

/-- one session at a time: the condition says no more than the trigger itself -/
theorem seesAll_alone (s : St) (i : ℕ) (new : New) (hi : ∀ x ∈ s.inserted, x.1 = i) (hn : s.checked = []) :
    SeesAll s (.check i new) := by
  intro _ new' _ hlt t ht
  have hown : own s i = s.inserted.map Prod.snd := by
    rw [own, List.filter_eq_self.2 fun x hx => by simpa using hi x hx]
  simp only [counter, visible, hown, List.countP_append, List.countP_map, Option.mem_def.1 ht,
    Option.some.injEq] at hlt
  simp only [held, files, hn, List.countP_nil, add_zero]
  simp only [Function.comp_def, eq_comm (a := t)] at hlt
  exact hlt

/-- a file of the transaction "t", with the given "Id" -/
def upload (id : BitVec 128) : New := ⟨some id, some "t", some "scan.pdf", some "application/pdf", none, some 0⟩

theorem at_most_two_uploads :
    AtMostTwo (run step empty [.check 0 (upload 1), .insert 0, .check 1 (upload 2), .commit 0, .insert 1, .commit 1,
      .check 2 (upload 3)]) :=
  at_most_two _ (by decide)

/-- **Three files under one id.** Three sessions count before any of them inserts. -/
theorem three_attachments : ¬ ∀ ops : List Op, AtMostTwo (run step empty ops) := by
  intro h
  have h3 : files (run step empty [.check 0 (upload 1), .check 1 (upload 2), .check 2 (upload 3), .insert 0, .insert 1,
      .insert 2, .commit 0, .commit 1, .commit 2]) "t" = 3 := by decide
  have h2 := h [.check 0 (upload 1), .check 1 (upload 2), .check 2 (upload 3), .insert 0, .insert 1, .insert 2,
    .commit 0, .commit 1, .commit 2] "t"
  rw [h3] at h2
  omega

end IconSetup.Attachments
