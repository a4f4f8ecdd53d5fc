/-
INSERT of one text into load_schools_daycares, with PostgreSQL's JSON functions in place: when it is accepted, and what
it leaves in schools_daycares, schools_daycares_bak, load_schools_daycares and schools_daycares_index. What the locale
decides (initcap, upper) is a parameter.

The state is any that statements on the four objects can leave, from any rows in the target, the backup and the index.
Nothing is ever staged between statements, since every INSERT fires the trigger.

- `schoolFields_iff`, `schoolRow_iff`: the seven fields of an element, and the row they are stored as.
- `select_iff`: what the SELECT of the trigger function gives.
- `load_accepted`: an INSERT that succeeds meets the conditions; `accepted_load`: one that meets them succeeds, and how.
- `schools_load_exact`: both, in every reachable state; a refused INSERT changes nothing.
-/
import Mathlib.Tactic
import IconSetup.Core.Run
import IconSetup.Core.PgJson
import IconSetup.Load.Loaders
import IconSetup.Load.WholePayload

namespace IconSetup.SchoolsLoad

open IconSetup.Run IconSetup.Fallible IconSetup.Text IconSetup.Dml IconSetup.PgJson IconSetup.Loaders
open IconSetup.JsonText (Value strings)

/-! ## PostgreSQL -/

/-- the functions of PostgreSQL that do not look into JSON -/
structure PgFunctions where
  initcap : String → String
  upper : String → String
  toDate : String → String → Option ℤ
  bigint : String → Option ℤ

def postgres (fn : PgFunctions) : Pg where
  Json := Value
  elements := elements
  text := arrowText
  toDate := fn.toDate
  bigint := fn.bigint
  initcap := fn.initcap
  upper := fn.upper

/-! ## One element -/

/-- the seven texts of an element -/
def extracted (v : Value) : SchoolFields :=
  ⟨arrow v "phu", arrow v "orgType", arrow v "name", arrow v "identifier", arrow v "streetAddress",
    arrow v "postalCode", arrow v "city"⟩

/-- every field is at most as long as its column, but for spaces at its end -/
def FieldsFit (f : SchoolFields) : Prop :=
  Fits 100 f.phu ∧ Fits 100 f.orgType ∧ Fits 100 f.name ∧ Fits 50 f.identifier ∧ Fits 100 f.address ∧
    Fits 8 f.postalCode ∧ Fits 100 f.city

instance (f : SchoolFields) : Decidable (FieldsFit f) := by unfold FieldsFit; infer_instance

/-- the row that is stored for the fields -/
def stored (f : SchoolFields) : SchoolDaycare where
  identifier := cut 50 f.identifier
  phu := cut 100 f.phu
  orgType := cut 100 f.orgType
  name := cut 100 f.name
  address := cut 100 f.address
  postalCode := cut 8 f.postalCode
  city := cut 100 f.city

theorem schoolFields_iff (fn : PgFunctions) (v : Value) (f : SchoolFields) :
    schoolFields (postgres fn) v = some f ↔ (∀ raw ∈ strings v, Holdable raw) ∧ f = extracted v := by
  simp only [schoolFields, postgres, Option.bind_eq_bind, Option.bind_eq_some_iff, arrowText_iff, Option.pure_def,
    Option.some.injEq]
  constructor
  · rintro ⟨_, ⟨hs, rfl⟩, _, ⟨-, rfl⟩, _, ⟨-, rfl⟩, _, ⟨-, rfl⟩, _, ⟨-, rfl⟩, _, ⟨-, rfl⟩, _, ⟨-, rfl⟩, rfl⟩
    exact ⟨hs, rfl⟩
  · rintro ⟨hs, rfl⟩
    exact ⟨_, ⟨hs, rfl⟩, _, ⟨hs, rfl⟩, _, ⟨hs, rfl⟩, _, ⟨hs, rfl⟩, _, ⟨hs, rfl⟩, _, ⟨hs, rfl⟩, _, ⟨hs, rfl⟩, rfl⟩

theorem schoolRow_iff (f : SchoolFields) (r : SchoolDaycare) : schoolRow f = some r ↔ FieldsFit f ∧ r = stored f := by
  simp only [schoolRow, Option.bind_eq_bind, Option.bind_eq_some_iff, castVarchar_iff, Option.pure_def,
    Option.some.injEq]
  constructor
  · rintro ⟨_, ⟨h1, rfl⟩, _, ⟨h2, rfl⟩, _, ⟨h3, rfl⟩, _, ⟨h4, rfl⟩, _, ⟨h5, rfl⟩, _, ⟨h6, rfl⟩, _, ⟨h7, rfl⟩, rfl⟩
    exact ⟨⟨h1, h2, h3, h4, h5, h6, h7⟩, rfl⟩
  · rintro ⟨⟨h1, h2, h3, h4, h5, h6, h7⟩, rfl⟩
    exact ⟨_, ⟨h1, rfl⟩, _, ⟨h2, rfl⟩, _, ⟨h3, rfl⟩, _, ⟨h4, rfl⟩, _, ⟨h5, rfl⟩, _, ⟨h6, rfl⟩, _, ⟨h7, rfl⟩, rfl⟩

/-! ## One statement -/

/-- the conditions under which a text is loaded -/
structure Accepts (text : String) (values : List Value) : Prop where
  array : IsArray text values
  strings : ∀ v ∈ values, ∀ raw ∈ strings v, Holdable raw
  fits : ∀ v ∈ values, FieldsFit (extracted v)
  identifier : ∀ v ∈ values, (extracted v).identifier ≠ none
  distinct : ∀ v ∈ values, ∀ w ∈ values, extracted v ≠ extracted w →
    cut 50 (extracted v).identifier ≠ cut 50 (extracted w).identifier

/-- the rows that are stored for the elements, one for all that have the same fields -/
def storedRows (values : List Value) : List SchoolDaycare := (values.map extracted).dedup.map stored

theorem mem_storedRows {values : List Value} {r : SchoolDaycare} :
    r ∈ storedRows values ↔ ∃ v ∈ values, r = stored (extracted v) := by
  simp only [storedRows, List.mem_map, List.mem_dedup]
  constructor
  · rintro ⟨_, ⟨v, hv, rfl⟩, rfl⟩; exact ⟨v, hv, rfl⟩
  · rintro ⟨v, hv, rfl⟩; exact ⟨_, ⟨v, hv, rfl⟩, rfl⟩

section
variable (fn : PgFunctions) {text : String}

theorem select_iff {rows : List SchoolDaycare} : selectSchoolsDaycares (postgres fn) [text] = some rows ↔
    ∃ values, IsArray text values ∧ (∀ v ∈ values, ∀ raw ∈ strings v, Holdable raw) ∧
      (∀ v ∈ values, FieldsFit (extracted v)) ∧ rows = storedRows values := by
  have hrowset : fieldsRowset (postgres fn) [text] = elements text := by
    rw [fieldsRowset_cons]
    cases h : elements text with
    | none => simp [postgres, h]
    | some values =>
      simp only [postgres, h, fieldsRowset, List.mapM_nil, Option.bind_some]
      exact congrArg some (List.append_nil values)
  constructor
  · intro h
    simp only [selectSchoolsDaycares, Option.bind_eq_bind, hrowset] at h
    obtain ⟨values, hvalues, h⟩ := Option.bind_eq_some_iff.1 h
    obtain ⟨fields, hfields, h⟩ := Option.bind_eq_some_iff.1 h
    obtain ⟨hstrings, rfl⟩ := (mapM_eq_map (schoolFields_iff fn)).1 hfields
    obtain ⟨hfit, rfl⟩ := (mapM_eq_map schoolRow_iff).1 h
    refine ⟨values, elements_iff.1 hvalues, hstrings, fun v hv => ?_, rfl⟩
    exact hfit _ (List.mem_dedup.2 (List.mem_map_of_mem hv))
  · rintro ⟨values, hvalues, hstrings, hfit, rfl⟩
    have hfields := (mapM_eq_map (schoolFields_iff fn)).2 ⟨hstrings, rfl⟩
    have hrows : (values.map extracted).dedup.mapM schoolRow = some (storedRows values) := by
      refine (mapM_eq_map schoolRow_iff).2 ⟨fun f hf => ?_, rfl⟩
      obtain ⟨v, hv, rfl⟩ := List.mem_map.1 (List.mem_dedup.1 hf)
      exact hfit v hv
    simp only [selectSchoolsDaycares, Option.bind_eq_bind, hrowset]
    refine Option.bind_eq_some_iff.2 ⟨values, elements_iff.2 hvalues, ?_⟩
    exact Option.bind_eq_some_iff.2 ⟨_, hfields, hrows⟩

/-- the primary key holds iff elements with different fields have different identifiers, none of them NULL -/
theorem insert_iff (values : List Value) :
    (∃ target, insertRows SchoolDaycare.identifier (fun r => r.identifier.isSome) [] (storedRows values) = some target) ↔
      (∀ v ∈ values, (extracted v).identifier ≠ none) ∧ ∀ v ∈ values, ∀ w ∈ values, extracted v ≠ extracted w →
        cut 50 (extracted v).identifier ≠ cut 50 (extracted w).identifier := by
  have hsome : ∀ f : SchoolFields, (stored f).identifier.isSome = true ↔ f.identifier ≠ none := by
    intro f
    simp [stored, cut, Option.isSome_iff_ne_none]
  have hnodup : ((storedRows values).map SchoolDaycare.identifier).Nodup ↔
      ∀ v ∈ values, ∀ w ∈ values, extracted v ≠ extracted w →
        cut 50 (extracted v).identifier ≠ cut 50 (extracted w).identifier := by
    rw [storedRows, List.map_map, List.nodup_map_iff_inj_on (List.nodup_dedup _)]
    constructor
    · intro h v hv w hw hne heq
      exact hne (h _ (List.mem_dedup.2 (List.mem_map_of_mem hv)) _ (List.mem_dedup.2 (List.mem_map_of_mem hw)) heq)
    · intro h f hf g hg heq
      obtain ⟨v, hv, rfl⟩ := List.mem_map.1 (List.mem_dedup.1 hf)
      obtain ⟨w, hw, rfl⟩ := List.mem_map.1 (List.mem_dedup.1 hg)
      by_contra hne
      exact h v hv w hw hne heq
  rw [insertRows_iff SchoolDaycare.identifier _ [] _ List.nodup_nil, List.nil_append, hnodup]
  constructor
  · rintro ⟨hok, hdistinct⟩
    exact ⟨fun v hv => (hsome _).1 (hok _ (mem_storedRows.2 ⟨v, hv, rfl⟩)), hdistinct⟩
  · rintro ⟨hident, hdistinct⟩
    refine ⟨fun r hr => ?_, hdistinct⟩
    obtain ⟨v, hv, rfl⟩ := mem_storedRows.1 hr
    exact (hsome _).2 (hident v hv)

variable {db : Db SchoolDaycare SchoolDaycare}

theorem load_accepted (hs : db.staging = []) {db' : Db SchoolDaycare SchoolDaycare}
    (h : load (loadSchoolsDaycares (postgres fn)) db [text] = .ok db') : ∃ values, Accepts text values := by
  rw [load_one _ hs] at h
  have hselect : (loadSchoolsDaycares (postgres fn)).select [text] db.sequence =
      (selectSchoolsDaycares (postgres fn) [text], db.sequence) := rfl
  rw [hselect] at h
  cases hrows : selectSchoolsDaycares (postgres fn) [text] with
  | none => rw [hrows] at h; cases h
  | some rows =>
    rw [hrows] at h
    obtain ⟨values, harray, hstrings, hfit, rfl⟩ := (select_iff fn).1 hrows
    cases hins : (loadSchoolsDaycares (postgres fn)).insert [] (storedRows values) with
    | none => simp only [hins] at h; cases h
    | some target =>
      obtain ⟨hident, hdistinct⟩ := (insert_iff values).1 ⟨target, hins⟩
      exact ⟨values, harray, hstrings, hfit, hident, hdistinct⟩

/-- an accepted text is loaded: the target, the backup, the staging table and the index afterwards -/
theorem accepted_load (hs : db.staging = []) {values : List Value} (ha : Accepts text values) :
    load (loadSchoolsDaycares (postgres fn)) db [text] =
      .ok ⟨storedRows values, some db.target, [], db.sequence,
        some ((storedRows values).map (schoolView (postgres fn)))⟩ := by
  have hrows : selectSchoolsDaycares (postgres fn) [text] = some (storedRows values) :=
    (select_iff fn).2 ⟨values, ha.array, ha.strings, ha.fits, rfl⟩
  have hselect : (loadSchoolsDaycares (postgres fn)).select [text] db.sequence =
      (some (storedRows values), db.sequence) := congrArg (fun rows => (rows, db.sequence)) hrows
  obtain ⟨target, hins⟩ := (insert_iff values).2 ⟨ha.identifier, ha.distinct⟩
  have htarget := (insertRows_eq _ _ _ _ _ hins).1
  rw [List.nil_append] at htarget
  subst htarget
  have hinsert : (loadSchoolsDaycares (postgres fn)).insert [] (storedRows values) = some (storedRows values) := hins
  rw [load_one _ hs, hselect]
  simp only [hinsert]
  rfl

end

/-! ## Reachable states -/

/-- the statements that reach the four objects: INSERT into the staging table, DELETE and UPDATE on it, anything that
changes the target or the backup, and a refresh of the index -/
inductive Op where
  | load (texts : List String)
  | deleteStaged (cond : String → Bool)
  | updateStaged (set : String → String)
  | writeTarget (rows : List SchoolDaycare)
  | writeBak (bak : Option (List SchoolDaycare))
  | refreshIndex

def apply (fn : PgFunctions) (db : Db SchoolDaycare SchoolDaycare) : Op → Db SchoolDaycare SchoolDaycare
  | .load texts => step (loadSchoolsDaycares (postgres fn)) db texts
  | .deleteStaged cond => { db with staging := db.staging.filter fun s => !cond s }
  | .updateStaged set => { db with staging := db.staging.map set }
  | .writeTarget rows => { db with target := rows }
  | .writeBak bak => { db with bak := bak }
  | .refreshIndex => { db with index := some (db.target.map (schoolView (postgres fn))) }

theorem apply_staging (fn : PgFunctions) (db : Db SchoolDaycare SchoolDaycare) (op : Op) (hs : db.staging = []) :
    (apply fn db op).staging = [] := by
  cases op with
  | load texts => exact WholePayload.step_staging _ db texts hs
  | deleteStaged cond => simp [apply, hs]
  | updateStaged set => simp [apply, hs]
  | writeTarget rows => exact hs
  | writeBak bak => exact hs
  | refreshIndex => exact hs

/-- what a successful load leaves -/
structure Loaded (fn : PgFunctions) (before : Db SchoolDaycare SchoolDaycare) (values : List Value)
    (after : Db SchoolDaycare SchoolDaycare) : Prop where
  nodup : after.target.Nodup
  target : ∀ r, r ∈ after.target ↔ ∃ v ∈ values, r = stored (extracted v)
  bak : after.bak = some before.target
  staging : after.staging = []
  /-- names, addresses and cities in title case, postal codes in upper case, the rest as it is -/
  index : after.index = some (after.target.map fun r =>
    { identifier := r.identifier
      phu := r.phu
      orgType := r.orgType
      name := r.name.map fn.initcap
      address := r.address.map fn.initcap
      postalCode := r.postalCode.map fn.upper
      city := r.city.map fn.initcap })

/-- different rows have different identifiers, so they are a set -/
theorem storedRows_nodup {text : String} {values : List Value} (ha : Accepts text values) : (storedRows values).Nodup := by
  obtain ⟨target, hins⟩ := (insert_iff values).2 ⟨ha.identifier, ha.distinct⟩
  have hkeys := ((insertRows_iff SchoolDaycare.identifier _ [] _ List.nodup_nil).1 ⟨target, hins⟩).2
  exact hkeys.of_map _

/-- **The schools and daycares load is exact.** In every state that statements leave, an INSERT of one text into
load_schools_daycares succeeds iff the text is a JSON array whose strings can be held as text, whose fields fit their
columns, and whose elements have identifiers, different ones where their fields differ. Then schools_daycares is the set
of the elements' records, the backup is what it was before, nothing is staged, and the index is its image under initcap
and upper. A refused INSERT changes nothing. -/
theorem schools_load_exact (fn : PgFunctions) (target : List SchoolDaycare) (bak : Option (List SchoolDaycare))
    (index : Option (List SchoolDaycare)) (ops : List Op) (text : String) :
    ((∃ db', load (loadSchoolsDaycares (postgres fn)) (run (apply fn) ⟨target, bak, [], 0, index⟩ ops) [text] = .ok db') ↔
        ∃ values, Accepts text values) ∧
      (∀ values, Accepts text values → Loaded fn (run (apply fn) ⟨target, bak, [], 0, index⟩ ops) values
        (apply fn (run (apply fn) ⟨target, bak, [], 0, index⟩ ops) (.load [text]))) ∧
      ((¬ ∃ values, Accepts text values) → apply fn (run (apply fn) ⟨target, bak, [], 0, index⟩ ops) (.load [text]) =
        run (apply fn) ⟨target, bak, [], 0, index⟩ ops) := by
  have hs : (run (apply fn) ⟨target, bak, [], 0, index⟩ ops).staging = [] := run_inv (apply_staging fn) _ ops rfl
  generalize run (apply fn) ⟨target, bak, [], 0, index⟩ ops = db at hs
  refine ⟨⟨?_, ?_⟩, ?_, ?_⟩
  · rintro ⟨db', h⟩; exact load_accepted fn hs h
  · rintro ⟨values, ha⟩; exact ⟨_, accepted_load fn hs ha⟩
  · intro values ha
    have hstep : apply fn db (.load [text]) = ⟨storedRows values, some db.target, [], db.sequence,
        some ((storedRows values).map (schoolView (postgres fn)))⟩ := by
      rw [apply, step, accepted_load fn hs ha]
    rw [hstep]
    exact ⟨storedRows_nodup ha, fun r => mem_storedRows, rfl, rfl, rfl⟩
  · intro hno
    rw [apply, step]
    cases h : load (loadSchoolsDaycares (postgres fn)) db [text] with
    | ok db' => exact absurd (load_accepted fn hs h) hno
    | error seq =>
      have hseq : seq = db.sequence := by
        rw [load_one _ hs] at h
        have hselect : (loadSchoolsDaycares (postgres fn)).select [text] db.sequence =
            (selectSchoolsDaycares (postgres fn) [text], db.sequence) := rfl
        rw [hselect] at h
        cases hrows : selectSchoolsDaycares (postgres fn) [text] with
        | none => rw [hrows] at h; exact (Except.error.inj h).symm
        | some rows =>
          rw [hrows] at h
          simp only at h
          split at h
          · exact (Except.error.inj h).symm
          · cases h
      rw [hseq]

end IconSetup.SchoolsLoad
