/-
Redeployment: Drop_DB.sql, 2_Create_Lookup_DB.sql and 3_Create_Submit_DB.sql, one after the other, on a database that
earlier runs of the scripts and the triggers of the loading tables have left in any state.

- `step_reached`: every object there can ever be is one of `allObjects`, whatever is cut off or fails on the way.
- `dropDb_clean`: Drop_DB.sql then runs without failure; only the function file_upload_check, which it does not drop,
  may be left.
- `deploy_eq`: from there the other two scripts run without failure, and end in the same objects either way.
- `redeploy_clean`: so redeployment ends where deployment to an empty database ends.
-/
import Mathlib.Tactic
import IconSetup.Core.Run
import IconSetup.Core.Catalog
import IconSetup.Deploy.Scripts

namespace IconSetup.Redeploy

open IconSetup.Catalog IconSetup.Scripts

/-! ## Operations -/

inductive Script where
  | dropDb
  | createLookupDb
  | createSubmitDb
deriving DecidableEq, Repr

def Script.stmts (currentDate : ℤ) : Script → List Scripts.Stmt
  | .dropDb => dropStmts Scripts.dropDb
  | .createLookupDb => Scripts.createLookupDb currentDate
  | .createSubmitDb => Scripts.createSubmitDb

inductive Op where
  /-- psql runs the first `count` statements of the script, on a given day -/
  | script (s : Script) (count : ℕ) (currentDate : ℤ)
  /-- INSERT into a loading table -/
  | load (l : Loader) (text : String) (payload viewed : List Row)
  /-- any other statement on the rows of a table -/
  | rows (table : String) (f : List Row → Option (List Row))

def step (db : Scripts.Db) : Op → Scripts.Db
  | .script s count currentDate => Run.run Catalog.step db ((s.stmts currentDate).take count)
  | .load l text payload viewed =>
    -- the statement and its trigger are one transaction
    (execAll db (l.load (decide (.trigger l.staging l.staging ∈ names db.objects)) text payload viewed)).getD db
  | .rows table f => Catalog.step db (.write (.rel table) f)

def empty : Scripts.Db := ⟨[], []⟩

def redeploy (currentDate : ℤ) : List Scripts.Stmt :=
  dropStmts dropDb ++ (createLookupDb currentDate ++ createSubmitDb)

/-! ## What can be there -/

def allObjects : List Scripts.Obj :=
  (createTables ++ createIndexesViewsFunctions ++ createSubmitDb).flatMap Stmt.objects ++
    [Loader.lots.bak, Loader.schoolsDaycares.bak]

def IsRel (n : Name) : Prop := ∃ r, n = .rel r

abbrev Reached (db : Scripts.Db) : Prop := Within allObjects IsRel db

theorem objects_mem {s : Scripts.Stmt} (hs : s ∈ createTables ++ createIndexesViewsFunctions ++ createSubmitDb) :
    s.objects ⊆ allObjects :=
  fun _ ho => List.mem_append_left _ (List.mem_flatMap.2 ⟨s, hs, ho⟩)

theorem targets_nil : ∀ s ∈ createTables ++ createIndexesViewsFunctions ++ createSubmitDb, s.targets = [] := by
  decide

theorem stmts_within (currentDate : ℤ) (script : Script) :
    ∀ s ∈ script.stmts currentDate, s.Within allObjects IsRel := by
  intro s hs
  have hcreate : s ∈ createTables ++ createIndexesViewsFunctions ++ createSubmitDb → s.Within allObjects IsRel :=
    fun hm => ⟨objects_mem hm, by rw [targets_nil s hm]; exact fun n hn => (by cases hn)⟩
  cases script with
  | dropDb =>
    obtain ⟨d, -, rfl⟩ := List.mem_map.1 hs
    exact ⟨fun o ho => (by cases ho), fun n hn => (by cases hn)⟩
  | createLookupDb =>
    rcases List.mem_append.1 hs with hs | hs
    · exact hcreate (List.mem_append_left _ (List.mem_append_left _ hs))
    · rcases List.mem_cons.1 hs with rfl | hs
      · refine ⟨fun o ho => (by cases ho), fun n hn => ⟨"process_lock", List.mem_singleton.1 hn⟩⟩
      · exact hcreate (List.mem_append_left _ (List.mem_append_right _ hs))
  | createSubmitDb => exact hcreate (List.mem_append_right _ hs)

theorem load_within (l : Loader) (triggered : Bool) (text : String) (payload viewed : List Row) :
    ∀ s ∈ l.load triggered text payload viewed, s.Within allObjects IsRel := by
  have hwrite : ∀ (r : String) (f : List Row → Option (List Row)),
      (Stmt.write (.rel r) f : Scripts.Stmt).Within allObjects IsRel :=
    fun r f => ⟨fun o ho => (by cases ho), fun n hn => ⟨r, List.mem_singleton.1 hn⟩⟩
  have hbak : l.bak ∈ allObjects ∧ IsRel l.bak.name := by
    cases l with
    | lots => exact ⟨List.mem_append_right _ List.mem_cons_self, _, rfl⟩
    | schoolsDaycares => exact ⟨List.mem_append_right _ (List.mem_cons_of_mem _ List.mem_cons_self), _, rfl⟩
  intro s hs
  rcases List.mem_cons.1 hs with rfl | hs
  · exact hwrite _ _
  · cases triggered with
    | false => cases hs
    | true =>
      simp only [if_true, Loader.body, List.mem_append, List.mem_cons, List.not_mem_nil, or_false] at hs
      rcases hs with (rfl | rfl | rfl | rfl | rfl) | hs
      · exact ⟨fun o ho => (by cases ho), fun n hn => (by cases hn)⟩
      · refine ⟨fun o ho => ?_, fun n hn => ?_⟩
        · rw [List.mem_singleton.1 ho]; exact hbak.1
        · rw [List.mem_singleton.1 hn]; exact hbak.2
      · exact hwrite _ _
      · exact hwrite _ _
      · exact hwrite _ _
      · obtain ⟨v, -, rfl⟩ := List.mem_map.1 hs
        exact hwrite _ _

theorem reached_empty : Reached empty := ⟨wf_empty, fun o ho => (by cases ho), fun r hr => (by cases hr)⟩

theorem step_reached (db : Scripts.Db) (o : Op) (h : Reached db) : Reached (step db o) := by
  cases o with
  | script s count currentDate =>
    exact run_within _ h fun x hx => stmts_within currentDate s x (List.mem_of_mem_take hx)
  | load l text payload viewed =>
    simp only [step]
    cases he : execAll db (l.load (decide (.trigger l.staging l.staging ∈ names db.objects)) text payload viewed) with
    | none => exact h
    | some db' => exact execAll_within _ h (load_within l _ text payload viewed) he
  | rows table f =>
    exact step_within h ⟨fun o ho => (by cases ho), fun n hn => ⟨table, List.mem_singleton.1 hn⟩⟩

/-! ## Drop_DB.sql -/

def fileUploadCheck : Scripts.Obj := ⟨.function "file_upload_check", none, [], .triggerFunction⟩

theorem dropDb_dropsClean : DropsClean allObjects [] dropDb := by decide +kernel

theorem dropDb_survivors : survivors allObjects ((dropDb.map Prod.fst).reverse ++ []) = [fileUploadCheck] := by
  decide +kernel

/-- Drop_DB.sql never fails; at most the function file_upload_check is left, and no row -/
theorem dropDb_clean {db : Scripts.Db} (h : Reached db) :
    ∃ objects, execAll db (dropStmts dropDb) = some ⟨objects, []⟩ ∧ objects.Sublist db.objects ∧
      (objects = [] ∨ objects = [fileUploadCheck]) := by
  obtain ⟨db', hrun, hwf, hsub, hsurv⟩ := drops_clean dropDb h.wf h.objects (fun n hn => (by cases hn))
    dropDb_dropsClean
  rw [dropDb_survivors] at hsurv
  have hobj : db'.objects = [] ∨ db'.objects = [fileUploadCheck] := by
    have hnd : db'.objects.Nodup := hwf.nodup.of_map
    have hlen := (hnd.subperm hsurv).length_le
    cases ho : db'.objects with
    | nil => exact Or.inl rfl
    | cons o rest =>
      right
      rw [ho] at hlen hsurv
      have hrest : rest = [] := List.length_eq_zero_iff.1 (by simpa using hlen)
      rw [hrest, List.mem_singleton.1 (hsurv List.mem_cons_self)]
  have hrows : db'.contents = [] := by
    have hdrops : ∀ s ∈ (dropStmts dropDb : List Scripts.Stmt), s.Within allObjects IsRel :=
      stmts_within 0 .dropDb
    have hw := execAll_within _ h hdrops hrun
    apply List.eq_nil_iff_forall_not_mem.2
    intro r hr
    obtain ⟨t, ht⟩ := hw.rows r hr
    have hm := hwf.attached r hr
    rw [ht] at hm
    rcases hobj with hobj | hobj
    · rw [hobj] at hm; cases hm
    · rw [hobj] at hm
      simp [names, fileUploadCheck] at hm
  refine ⟨db'.objects, ?_, hsub, hobj⟩
  rw [hrun, ← hrows]

/-! ## The create scripts -/

/-- the objects that `createTables` leaves -/
def tablesFrom (objects : List Scripts.Obj) : List Scripts.Obj :=
  match execAll (⟨objects, []⟩ : Scripts.Db) createTables with
  | none => []
  | some db => db.objects

/-- the objects that both scripts leave -/
def deployedFrom (objects : List Scripts.Obj) : List Scripts.Obj :=
  match execAll (⟨tablesFrom objects, []⟩ : Scripts.Db) (createIndexesViewsFunctions ++ createSubmitDb) with
  | none => []
  | some db => db.objects

/-- the one row that a deployment stores -/
def seedRow (currentDate : ℤ) : Row := [.text "data-dictionary", .date (currentDate - 60)]

theorem createTables_ok : ∀ objects ∈ [[], [fileUploadCheck]],
    execAll (⟨objects, []⟩ : Scripts.Db) createTables = some ⟨tablesFrom objects, []⟩ ∧
      .rel "process_lock" ∈ names (tablesFrom objects) := by
  decide +kernel

theorem createRest_ok : ∀ objects ∈ [[], [fileUploadCheck]],
    execAll (⟨tablesFrom objects, [(.rel "process_lock", [])]⟩ : Scripts.Db)
      (createIndexesViewsFunctions ++ createSubmitDb) =
        some ⟨deployedFrom objects, [(.rel "process_lock", [])]⟩ := by
  decide +kernel

theorem deployedFrom_perm : (deployedFrom [fileUploadCheck]).Perm (deployedFrom []) := by
  decide +kernel

theorem seed_ok (objects : List Scripts.Obj) (currentDate : ℤ) (h : .rel "process_lock" ∈ names objects) :
    exec (⟨objects, []⟩ : Scripts.Db) (seedProcessLock currentDate) =
      some ⟨objects, [(.rel "process_lock", seedRow currentDate)]⟩ := by
  simp only [seedProcessLock, exec, rowsOf, h, if_true]
  rfl

theorem rest_not_write : ∀ s ∈ createIndexesViewsFunctions ++ createSubmitDb, ¬ s.IsWrite := by
  intro s hs hw
  have ht := targets_nil s (by
    rcases List.mem_append.1 hs with hs | hs
    · exact List.mem_append_left _ (List.mem_append_right _ hs)
    · exact List.mem_append_right _ hs)
  cases s with
  | write n f => cases ht
  | _ => exact hw

/-- after Drop_DB.sql, the two create scripts run without failure -/
theorem deploy_eq {objects : List Scripts.Obj} (h : objects ∈ [[], [fileUploadCheck]]) (currentDate : ℤ) :
    execAll (⟨objects, []⟩ : Scripts.Db) (createLookupDb currentDate ++ createSubmitDb) =
      some ⟨deployedFrom objects, [(.rel "process_lock", seedRow currentDate)]⟩ := by
  obtain ⟨htab, hpl⟩ := createTables_ok objects h
  let seeded (row : Row) : Scripts.Db := ⟨tablesFrom objects, [(.rel "process_lock", row)]⟩
  calc execAll (⟨objects, []⟩ : Scripts.Db) (createLookupDb currentDate ++ createSubmitDb)
      = execAll (⟨tablesFrom objects, []⟩ : Scripts.Db)
          (seedProcessLock currentDate :: (createIndexesViewsFunctions ++ createSubmitDb)) := by
        rw [createLookupDb, List.append_assoc, execAll_append, htab, Option.bind_some, List.cons_append]
    _ = execAll (seeded (seedRow currentDate)) (createIndexesViewsFunctions ++ createSubmitDb) := by
        rw [execAll_cons, seed_ok _ _ hpl, Option.bind_some]
    _ = (execAll (seeded []) (createIndexesViewsFunctions ++ createSubmitDb)).map
          (mapRows fun _ => seedRow currentDate) :=
        execAll_map (fun _ => seedRow currentDate) (seeded []) _ rest_not_write
    _ = some ⟨deployedFrom objects, [(.rel "process_lock", seedRow currentDate)]⟩ := by
        rw [createRest_ok objects h, Option.map_some, mapRows, List.map_singleton]

/-- **Redeployment is clean.** After any runs of the three scripts, each complete or cut off, any loads and any
statements on rows, the three scripts run without a failing statement, and leave the same objects and the same rows
as on an empty database. -/
theorem redeploy_clean (ops : List Op) (currentDate : ℤ) :
    ∃ fresh again, execAll empty (redeploy currentDate) = some fresh ∧
      execAll (Run.run step empty ops) (redeploy currentDate) = some again ∧
      again.objects.Perm fresh.objects ∧ again.contents = fresh.contents := by
  have hreached : Reached (Run.run step empty ops) := Run.run_inv step_reached empty ops reached_empty
  obtain ⟨objects0, hdrop0, hsub0, -⟩ := dropDb_clean reached_empty
  obtain ⟨objects, hdrop, -, hobj⟩ := dropDb_clean hreached
  have h0 : objects0 = [] := List.sublist_nil.1 hsub0
  subst h0
  have hmem : objects ∈ [[], [fileUploadCheck]] := by
    rcases hobj with rfl | rfl <;> simp
  have hperm : (deployedFrom objects).Perm (deployedFrom []) := by
    rcases hobj with rfl | rfl
    · exact List.Perm.refl _
    · exact deployedFrom_perm
  have hfresh : execAll empty (redeploy currentDate) =
      some ⟨deployedFrom [], [(.rel "process_lock", seedRow currentDate)]⟩ := by
    rw [redeploy, execAll_append, hdrop0, Option.bind_some, deploy_eq List.mem_cons_self currentDate]
  have hagain : execAll (Run.run step empty ops) (redeploy currentDate) =
      some ⟨deployedFrom objects, [(.rel "process_lock", seedRow currentDate)]⟩ := by
    rw [redeploy, execAll_append, hdrop, Option.bind_some, deploy_eq hmem currentDate]
  refine ⟨_, _, hfresh, hagain, ?_, rfl⟩
  dsimp only
  exact hperm

end IconSetup.Redeploy
