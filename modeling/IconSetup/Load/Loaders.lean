/-
The bulk loaders of lots and schools_daycares: a text is inserted into a staging table, and the trigger function of
that table moves the JSON array it holds to the target table. Both functions have one body, which works on whole
tables:

  drop the backup, create it anew from the target, empty the target, insert what is staged, empty the staging table

(and load_schools_daycares refreshes schools_daycares_index at the end). The trigger fires FOR EACH ROW, after all
rows of the statement are staged. A statement that raises an error is undone, up to the numbers it took from the
sequence of lots.lot_id.

PostgreSQL's functions on json, dates and numbers are a parameter (`Pg`).

- `fire_eq`: what one firing does, in one step. `load_one`: the same for an INSERT of one text.
- `selectLots_records`: the rows selected for lots are the records of all staged elements, in order.
- `lotRows_ids`: their ids count up from the sequence.
- `selectSchoolsDaycares_mem`: the rows selected for schools_daycares, by membership.
-/
import Mathlib.Tactic
import IconSetup.Core.Fallible
import IconSetup.Core.Text
import IconSetup.Core.Dml

namespace IconSetup.Loaders

open IconSetup.Fallible IconSetup.Text IconSetup.Dml

/-- the functions of PostgreSQL that the loaders call; `none` where they raise an error -/
structure Pg where
  Json : Type
  /-- the rows of `json_array_elements(values::json)` -/
  elements : String → Option (List Json)
  /-- `values ->> key`; NULL when the key is missing or holds null -/
  text : Json → String → Option (Option String)
  toDate : String → String → Option ℤ
  bigint : String → Option ℤ
  initcap : String → String
  upper : String → String

/-! ## A loader -/

/-- the statements of the two trigger functions -/
inductive Stmt where
  | dropBak
  | createBak
  | deleteTarget
  | insertTarget
  | deleteStaging
  | refreshIndex
deriving DecidableEq, Repr

/-- what both functions do -/
def moveStaged : List Stmt := [.dropBak, .createBak, .deleteTarget, .insertTarget, .deleteStaging]

/-- a trigger function over target rows `R`, with an index view of rows `I` -/
structure Loader (R I : Type) where
  /-- the rows of INSERT .. SELECT on the staged texts, and the sequence afterwards -/
  select : List String → ℤ → Option (List R) × ℤ
  /-- the constraints of the target: its rows once new rows are in -/
  insert : List R → List R → Option (List R)
  /-- a row of the index view -/
  view : R → I
  body : List Stmt
  body_eq : body = moveStaged ∨ body = moveStaged ++ [.refreshIndex]
  select_nil : ∀ seq, select [] seq = (some [], seq)
  insert_nil : insert [] [] = some []
  insert_append : ∀ target rows target', insert target rows = some target' → target' = target ++ rows

/-- the tables of one loader -/
structure Db (R I : Type) where
  target : List R
  /-- the _bak table, which may be missing -/
  bak : Option (List R)
  staging : List String
  /-- the last number taken from the sequence of the target's serial column -/
  sequence : ℤ
  /-- the materialized view, which starts WITH NO DATA -/
  index : Option (List I)
deriving DecidableEq, Repr

variable {R I : Type}

/-- one statement of a trigger function; the error case carries the sequence, which is not undone -/
def exec (l : Loader R I) (db : Db R I) : Stmt → Except ℤ (Db R I)
  | .dropBak => .ok { db with bak := none }
  | .createBak =>
    match db.bak with
    | some _ => .error db.sequence
    | none => .ok { db with bak := some db.target }
  | .deleteTarget => .ok { db with target := [] }
  | .insertTarget =>
    match l.select db.staging db.sequence with
    | (none, seq) => .error seq
    | (some rows, seq) =>
      match l.insert db.target rows with
      | none => .error seq
      | some target => .ok { db with target := target, sequence := seq }
  | .deleteStaging => .ok { db with staging := [] }
  | .refreshIndex => .ok { db with index := some (db.target.map l.view) }

/-- the trigger function -/
def fire (l : Loader R I) (db : Db R I) : Except ℤ (Db R I) := l.body.foldlM (exec l) db

/-- INSERT of the texts into the staging table: all rows are staged, then the trigger fires once for each -/
def load (l : Loader R I) (db : Db R I) (texts : List String) : Except ℤ (Db R I) :=
  texts.foldlM (fun db _ => fire l db) { db with staging := db.staging ++ texts }

/-- the statement as a transaction of its own -/
def step (l : Loader R I) (db : Db R I) (texts : List String) : Db R I :=
  match load l db texts with
  | .ok db' => db'
  | .error seq => { db with sequence := seq }

/-- the index view after a firing that leaves `target` -/
def indexAfter (l : Loader R I) (target : List R) (index : Option (List I)) : Option (List I) :=
  if .refreshIndex ∈ l.body then some (target.map l.view) else index

/-- what the trigger function does to the tables -/
theorem fire_eq (l : Loader R I) (db : Db R I) : fire l db =
    match l.select db.staging db.sequence with
    | (none, seq) => .error seq
    | (some rows, seq) =>
      match l.insert [] rows with
      | none => .error seq
      | some target => .ok ⟨target, some db.target, [], seq, indexAfter l target db.index⟩ := by
  have hmove : moveStaged.foldlM (exec l) db =
      match l.select db.staging db.sequence with
      | (none, seq) => .error seq
      | (some rows, seq) =>
        match l.insert [] rows with
        | none => .error seq
        | some target => .ok ⟨target, some db.target, [], seq, db.index⟩ := by
    simp only [moveStaged, List.foldlM_cons, List.foldlM_nil, exec, bind, Except.bind, pure, Except.pure]
    rcases l.select db.staging db.sequence with ⟨_ | rows, seq⟩
    · rfl
    · simp only
      cases l.insert [] rows <;> rfl
  unfold fire
  rcases l.body_eq with hb | hb
  · have hi : ∀ target, indexAfter l target db.index = db.index := fun _ => by rw [indexAfter, hb, if_neg (by decide)]
    simp only [hb, hmove, hi]
  · have hi : ∀ target, indexAfter l target db.index = some (target.map l.view) := fun _ => by
      rw [indexAfter, hb, if_pos (by decide)]
    rw [hb, List.foldlM_append, hmove]
    simp only [hi]
    rcases l.select db.staging db.sequence with ⟨_ | rows, seq⟩
    · rfl
    · simp only
      cases l.insert [] rows <;> rfl

/-- with nothing staged, the trigger function moves the target to the backup and leaves the target empty -/
theorem fire_nil (l : Loader R I) (db : Db R I) (hs : db.staging = []) :
    fire l db = .ok ⟨[], some db.target, [], db.sequence, indexAfter l [] db.index⟩ := by
  rw [fire_eq, hs, l.select_nil]
  simp only [l.insert_nil]

/-- what an INSERT of one text does when nothing is staged -/
theorem load_one (l : Loader R I) {db : Db R I} (hs : db.staging = []) (text : String) : load l db [text] =
    match l.select [text] db.sequence with
    | (none, seq) => .error seq
    | (some rows, seq) =>
      match l.insert [] rows with
      | none => .error seq
      | some target => .ok ⟨target, some db.target, [], seq, indexAfter l target db.index⟩ := by
  have hload : load l db [text] = fire l { db with staging := [text] } := by
    simp only [load, hs, List.nil_append, List.foldlM_cons, List.foldlM_nil, bind_pure]
  rw [hload, fire_eq]

/-! ## load_lots -/

/-- what a payload says about a lot -/
structure LotRecord where
  lotNumber : Option String
  expiry : Option ℤ
  agentSnomed : Option ℤ
  tradePanoramaName : Option String
deriving DecidableEq, Repr

structure Lot where
  lotId : ℤ
  record : LotRecord
deriving DecidableEq, Repr

/-- the expressions of the SELECT in load_lots, coerced to the columns of lots -/
def lotRecord (pg : Pg) (values : pg.Json) : Option LotRecord := do
  let lotNumber ← castVarchar 100 (← pg.text values "lotNumber")
  let expiry ← strict (pg.toDate · "YY-MM-DD") (← pg.text values "lotExpiryDate")
  let agentSnomed ← strict pg.bigint (← pg.text values "agentSnomedCode")
  let tradePanoramaName ← castVarchar 100 (← pg.text values "tradeName")
  return ⟨lotNumber, expiry, agentSnomed, tradePanoramaName⟩

/-- `lot_id serial`: the next number, which must fit an integer -/
def nextLotId (seq : ℤ) : Option ℤ := if seq + 1 ≤ 2147483647 then some (seq + 1) else none

/-- the rows for the elements of one array, one after the other -/
def lotRows (pg : Pg) : List pg.Json → ℤ → Option (List Lot) × ℤ
  | [], seq => (some [], seq)
  | values :: rest, seq =>
    match nextLotId seq, lotRecord pg values with
    | some id, some record =>
      match lotRows pg rest (seq + 1) with
      | (none, seq') => (none, seq')
      | (some rows, seq') => (some (⟨id, record⟩ :: rows), seq')
    | _, _ => (none, seq + 1)

/-- the rows of the SELECT in load_lots -/
def selectLots (pg : Pg) : List String → ℤ → Option (List Lot) × ℤ
  | [], seq => (some [], seq)
  | values :: rest, seq =>
    match pg.elements values with
    | none => (none, seq)
    | some js =>
      match lotRows pg js seq with
      | (none, seq') => (none, seq')
      | (some rows, seq') =>
        match selectLots pg rest seq' with
        | (none, seq'') => (none, seq'')
        | (some rows', seq'') => (some (rows ++ rows'), seq'')

/-- the trigger function load_lots; lots has no index view to refresh -/
def loadLots (pg : Pg) : Loader Lot Unit where
  select := selectLots pg
  insert := insertRows Lot.lotId fun _ => true
  view := fun _ => ()
  body := [.dropBak, .createBak, .deleteTarget, .insertTarget, .deleteStaging]
  body_eq := Or.inl rfl
  select_nil := fun _ => rfl
  insert_nil := rfl
  insert_append := fun _ _ _ h => (insertRows_eq _ _ _ _ _ h).1

/-! ## load_schools_daycares -/

/-- the seven texts that the SELECT in load_schools_daycares takes from an element -/
structure SchoolFields where
  phu : Option String
  orgType : Option String
  name : Option String
  identifier : Option String
  address : Option String
  postalCode : Option String
  city : Option String
deriving DecidableEq, Repr

/-- a row of schools_daycares -/
structure SchoolDaycare where
  identifier : Option String
  phu : Option String
  orgType : Option String
  name : Option String
  address : Option String
  postalCode : Option String
  city : Option String
deriving DecidableEq, Repr

def schoolFields (pg : Pg) (values : pg.Json) : Option SchoolFields := do
  let phu ← pg.text values "phu"
  let orgType ← pg.text values "orgType"
  let name ← pg.text values "name"
  let identifier ← pg.text values "identifier"
  let address ← pg.text values "streetAddress"
  let postalCode ← pg.text values "postalCode"
  let city ← pg.text values "city"
  return ⟨phu, orgType, name, identifier, address, postalCode, city⟩

/-- coercion to the columns of schools_daycares -/
def schoolRow (f : SchoolFields) : Option SchoolDaycare := do
  let phu ← castVarchar 100 f.phu
  let orgType ← castVarchar 100 f.orgType
  let name ← castVarchar 100 f.name
  let identifier ← castVarchar 50 f.identifier
  let address ← castVarchar 100 f.address
  let postalCode ← castVarchar 8 f.postalCode
  let city ← castVarchar 100 f.city
  return ⟨identifier, phu, orgType, name, address, postalCode, city⟩

/-- `SELECT json_array_elements(values::json) as values FROM load_schools_daycares` -/
def fieldsRowset (pg : Pg) (staged : List String) : Option (List pg.Json) :=
  (staged.mapM pg.elements).map List.flatten

/-- `SELECT DISTINCT` of the seven texts, coerced -/
def selectSchoolsDaycares (pg : Pg) (staged : List String) : Option (List SchoolDaycare) := do
  let js ← fieldsRowset pg staged
  let fields ← js.mapM (schoolFields pg)
  fields.dedup.mapM schoolRow

/-- a row of schools_daycares_index -/
def schoolView (pg : Pg) (r : SchoolDaycare) : SchoolDaycare :=
  { r with
    name := r.name.map pg.initcap
    address := r.address.map pg.initcap
    postalCode := r.postalCode.map pg.upper
    city := r.city.map pg.initcap }

/-- the trigger function load_schools_daycares; the primary key of the target also makes identifier NOT NULL -/
def loadSchoolsDaycares (pg : Pg) : Loader SchoolDaycare SchoolDaycare where
  select := fun staged seq => (selectSchoolsDaycares pg staged, seq)
  insert := insertRows SchoolDaycare.identifier fun r => r.identifier.isSome
  view := schoolView pg
  body := [.dropBak, .createBak, .deleteTarget, .insertTarget, .deleteStaging, .refreshIndex]
  body_eq := Or.inr rfl
  select_nil := fun _ => rfl
  insert_nil := rfl
  insert_append := fun _ _ _ h => (insertRows_eq _ _ _ _ _ h).1

/-! ## The records of a payload -/

/-- what the staged arrays say about lots, element by element -/
def lotRecords (pg : Pg) (staged : List String) : Option (List LotRecord) := do
  let js ← fieldsRowset pg staged
  js.mapM (lotRecord pg)

/-- what the staged arrays say about schools and daycares, element by element -/
def schoolRecords (pg : Pg) (staged : List String) : Option (List SchoolDaycare) := do
  let js ← fieldsRowset pg staged
  js.mapM fun values => (schoolFields pg values).bind schoolRow

theorem fieldsRowset_cons (pg : Pg) (values : String) (rest : List String) : fieldsRowset pg (values :: rest) =
    (pg.elements values).bind fun js => (fieldsRowset pg rest).map (js ++ ·) := by
  simp only [fieldsRowset, List.mapM_cons, bind]
  cases pg.elements values with
  | none => rfl
  | some js => cases rest.mapM pg.elements <;> rfl

theorem nextLotId_eq {seq id : ℤ} (h : nextLotId seq = some id) : id = seq + 1 := by
  unfold nextLotId at h
  split_ifs at h
  exact (Option.some.inj h).symm

/-- what the first element adds to the rows of the others -/
theorem lotRows_cons {pg : Pg} {values : pg.Json} {rest : List pg.Json} {seq seq' : ℤ} {rows : List Lot}
    (h : lotRows pg (values :: rest) seq = (some rows, seq')) :
    ∃ record rows', nextLotId seq = some (seq + 1) ∧ lotRecord pg values = some record ∧
      lotRows pg rest (seq + 1) = (some rows', seq') ∧ rows = ⟨seq + 1, record⟩ :: rows' := by
  simp only [lotRows] at h
  split at h
  · rename_i id record hid hrec
    split at h
    · cases h
    · rename_i rows' seq'' hrest
      cases h
      have hnext := nextLotId_eq hid
      subst hnext
      exact ⟨record, rows', hid, hrec, hrest, rfl⟩
  · cases h

theorem lotRows_records (pg : Pg) (js : List pg.Json) (seq seq' : ℤ) (rows : List Lot)
    (h : lotRows pg js seq = (some rows, seq')) : js.mapM (lotRecord pg) = some (rows.map Lot.record) := by
  induction js generalizing seq rows with
  | nil => cases h; rfl
  | cons values rest ih =>
    obtain ⟨record, rows', -, hrec, hrest, rfl⟩ := lotRows_cons h
    rw [List.mapM_cons, hrec, ih _ _ hrest]
    rfl

theorem selectLots_records (pg : Pg) (staged : List String) (seq seq' : ℤ) (rows : List Lot)
    (h : selectLots pg staged seq = (some rows, seq')) : lotRecords pg staged = some (rows.map Lot.record) := by
  induction staged generalizing seq rows with
  | nil => cases h; rfl
  | cons values rest ih =>
    simp only [selectLots] at h
    split at h
    · cases h
    · rename_i js hjs
      split at h
      · cases h
      · rename_i rows1 seq1 h1
        split at h
        · cases h
        · rename_i rows2 seq2 h2
          cases h
          have hrest := ih _ _ h2
          simp only [lotRecords, Option.bind_eq_bind] at hrest ⊢
          obtain ⟨js', hjs', hrest⟩ := Option.bind_eq_some_iff.1 hrest
          rw [fieldsRowset_cons, hjs, hjs']
          simp only [Option.bind_some, Option.map_some, List.mapM_append, lotRows_records pg js seq seq1 rows1 h1, hrest,
            List.map_append]
          rfl

/-- the ids of one array count up from the sequence, which ends at the last of them -/
theorem lotRows_ids (pg : Pg) (js : List pg.Json) (seq seq' : ℤ) (rows : List Lot)
    (h : lotRows pg js seq = (some rows, seq')) :
    seq ≤ seq' ∧ (∀ r ∈ rows, seq < r.lotId ∧ r.lotId ≤ seq') ∧ (rows.map Lot.lotId).Pairwise (· < ·) := by
  induction js generalizing seq rows with
  | nil => cases h; simp
  | cons values rest ih =>
    obtain ⟨record, rows', -, -, hrest, rfl⟩ := lotRows_cons h
    obtain ⟨h1, h2, h3⟩ := ih _ _ hrest
    refine ⟨by omega, fun r hr => ?_, ?_⟩
    · rcases List.mem_cons.1 hr with rfl | hr
      · exact ⟨by simp, h1⟩
      · have := h2 r hr
        exact ⟨by omega, this.2⟩
    · rw [List.map_cons, List.pairwise_cons]
      refine ⟨fun x hx => ?_, h3⟩
      obtain ⟨r, hr, rfl⟩ := List.mem_map.1 hx
      exact (h2 r hr).1

/-- the rows selected for schools_daycares are the distinct records of the staged elements -/
theorem selectSchoolsDaycares_mem (pg : Pg) (staged : List String) (rows : List SchoolDaycare)
    (h : selectSchoolsDaycares pg staged = some rows) :
    ∃ records, schoolRecords pg staged = some records ∧ ∀ r, r ∈ rows ↔ r ∈ records := by
  simp only [selectSchoolsDaycares, Option.bind_eq_bind] at h
  obtain ⟨js, hjs, h⟩ := Option.bind_eq_some_iff.1 h
  obtain ⟨fields, hf, h⟩ := Option.bind_eq_some_iff.1 h
  have hall : ∀ values ∈ js, ∃ r, (schoolFields pg values).bind schoolRow = some r := by
    intro values hv
    obtain ⟨f, hfv⟩ := mapM_mem hf values hv
    obtain ⟨r, hr⟩ := mapM_mem h f (List.mem_dedup.2 ((mem_mapM hf f).2 ⟨values, hv, hfv⟩))
    exact ⟨r, by rw [hfv]; exact hr⟩
  obtain ⟨records, hrec⟩ := mapM_of_forall hall
  refine ⟨records, by rw [schoolRecords, hjs]; exact hrec, fun r => ?_⟩
  rw [mem_mapM h, mem_mapM hrec]
  constructor
  · intro ⟨f, hfm, hr⟩
    obtain ⟨values, hv, hfv⟩ := (mem_mapM hf f).1 (List.mem_dedup.1 hfm)
    exact ⟨values, hv, by rw [hfv]; exact hr⟩
  · intro ⟨values, hv, hr⟩
    obtain ⟨f, hfv, hr⟩ := Option.bind_eq_some_iff.1 hr
    exact ⟨f, List.mem_dedup.2 ((mem_mapM hf f).2 ⟨values, hv, hfv⟩), hr⟩

end IconSetup.Loaders
