/-
1_Add_Roles.sql: the role readonly, and what it may read through any runs of this script and of the schema scripts, each
complete or cut off, and any loads. One user runs them all and owns every object; the role has no password here. The
privileges on a table or view go with it, and a new one has the default privileges. GRANT .. ON DATABASE compose fails
where no database has this name.

- `step_db`: the schema does not depend on the role.
- `step_inv`: readonly may read only what is there, and, with the default privileges, all of it.
- `readonly_exact`: once 1_Add_Roles.sql has run to its end, readonly may read exactly the tables and views that are
  there, whatever is dropped, created and loaded afterwards; run without its last statement before the schema is
  created, as exec_psql.sh orders the scripts, it lets readonly read nothing.
-/
import Mathlib.Tactic
import IconSetup.Core.Run
import IconSetup.Core.Catalog
import IconSetup.Deploy.Scripts
import IconSetup.Deploy.Redeploy

namespace IconSetup.Roles

open IconSetup.Run IconSetup.Catalog IconSetup.Scripts IconSetup.Redeploy

/-! ## Privileges -/

/-- what TABLES stands for in GRANT and in ALTER DEFAULT PRIVILEGES -/
def isTable (o : Scripts.Obj) : Bool :=
  match o.definition with
  | .table _ => true
  | .view => true
  | .materializedView => true
  | _ => false

def tables (db : Scripts.Db) : List Name := names (db.objects.filter isTable)

/-- the database, the role, and its privileges -/
structure St where
  db : Scripts.Db
  role : Bool
  connect : Bool
  usage : Bool
  /-- what the role may SELECT from -/
  readable : List Name
  /-- whether it may SELECT from what is created -/
  defaults : Bool

inductive RoleStmt where
  /-- `CREATE ROLE readonly` -/
  | createRole
  /-- `GRANT CONNECT ON DATABASE compose TO readonly` -/
  | grantConnect
  /-- `GRANT USAGE ON SCHEMA public TO readonly` -/
  | grantUsage
  /-- `GRANT SELECT ON ALL TABLES IN SCHEMA public TO readonly` -/
  | grantSelect
  /-- `ALTER DEFAULT PRIVILEGES IN SCHEMA public GRANT SELECT ON TABLES TO readonly` -/
  | alterDefault
deriving DecidableEq, Repr

/-- the statements of 1_Add_Roles.sql -/
def addRoles : List RoleStmt := [.createRole, .grantConnect, .grantUsage, .grantSelect, .alterDefault]

/-- the state after a statement on the catalog -/
def changed (s : St) (db : Scripts.Db) : St :=
  { s with
    db := db
    readable := names (db.objects.filter fun o => isTable o &&
      if o.name ∈ names s.db.objects then decide (o.name ∈ s.readable) else s.defaults) }

def exec (s : St) (x : Scripts.Stmt) : Option St := (Catalog.exec s.db x).map (changed s)

inductive Op where
  /-- psql runs the first `count` statements of 1_Add_Roles.sql -/
  | addRoles (count : ℕ)
  /-- another script, a load, or a statement on rows -/
  | deploy (o : Redeploy.Op)

section
variable (compose : Bool)

/-- psql carries on after a statement that failed -/
def roleStep (s : St) : RoleStmt → St
  | .createRole => { s with role := true }
  | .grantConnect => if s.role && compose then { s with connect := true } else s
  | .grantUsage => if s.role then { s with usage := true } else s
  | .grantSelect => if s.role then { s with readable := tables s.db } else s
  | .alterDefault => if s.role then { s with defaults := true } else s

def step (s : St) : Op → St
  | .addRoles count => run (roleStep compose) s (addRoles.take count)
  | .deploy (.script script count currentDate) =>
    run (fun s x => (exec s x).getD s) s ((script.stmts currentDate).take count)
  | .deploy (.load l text payload viewed) =>
    ((l.load (decide (.trigger l.staging l.staging ∈ names s.db.objects)) text payload viewed).foldlM exec s).getD s
  | .deploy (.rows table f) => (exec s (.write (.rel table) f)).getD s

def start : St := ⟨Redeploy.empty, false, false, false, [], false⟩

/-! ## The schema -/

theorem exec_db (s : St) (x : Scripts.Stmt) : (exec s x).map St.db = Catalog.exec s.db x := by
  rw [exec, Option.map_map]
  exact congrFun Option.map_id _

theorem exec_getD_db (s : St) (x : Scripts.Stmt) : ((exec s x).getD s).db = Catalog.step s.db x := by
  rw [Catalog.step, ← exec_db]
  cases exec s x <;> rfl

theorem run_db (s : St) (script : List Scripts.Stmt) :
    (run (fun s x => (exec s x).getD s) s script).db = run Catalog.step s.db script := by
  induction script generalizing s with
  | nil => rfl
  | cons x script ih => rw [run_cons, run_cons, ih, exec_getD_db]

theorem execAll_db (s : St) (script : List Scripts.Stmt) :
    (script.foldlM exec s).map St.db = execAll s.db script := by
  induction script generalizing s with
  | nil => rfl
  | cons x script ih =>
    rw [List.foldlM_cons, execAll_cons, ← exec_db]
    cases exec s x with
    | none => rfl
    | some s' => exact ih s'

theorem roleStep_db (s : St) (r : RoleStmt) : (roleStep compose s r).db = s.db := by
  cases r with
  | createRole => rfl
  | grantConnect | grantUsage | grantSelect | alterDefault =>
    simp only [roleStep]
    split_ifs <;> rfl

theorem roles_db (s : St) (rs : List RoleStmt) : (run (roleStep compose) s rs).db = s.db := by
  induction rs generalizing s with
  | nil => rfl
  | cons r rs ih => rw [run_cons, ih, roleStep_db]

/-- **The schema does not depend on the role.** -/
theorem step_db (s : St) (o : Op) :
    (step compose s o).db = match o with
      | .addRoles _ => s.db
      | .deploy d => Redeploy.step s.db d := by
  cases o with
  | addRoles count => exact roles_db compose s _
  | deploy d =>
    cases d with
    | script script count currentDate => exact run_db s _
    | load l text payload viewed =>
      simp only [step, Redeploy.step, ← execAll_db]
      cases List.foldlM exec s (l.load _ text payload viewed) <;> rfl
    | rows table f => exact exec_getD_db s _

/-! ## What readonly may read -/

structure Inv (s : St) : Prop where
  reached : Reached s.db
  there : ∀ n ∈ s.readable, n ∈ tables s.db
  all : s.defaults = true → ∀ n ∈ tables s.db, n ∈ s.readable

/-- no name is given to a table and to something else -/
theorem kinds : ∀ o ∈ allObjects, ∀ o' ∈ allObjects, o.name = o'.name → isTable o = isTable o' := by
  decide +kernel

theorem mem_tables {db : Scripts.Db} {n : Name} : n ∈ tables db ↔ ∃ o ∈ db.objects, isTable o = true ∧ o.name = n := by
  simp only [tables, names, List.mem_map, List.mem_filter, and_assoc]

theorem changed_inv {s : St} (h : Inv s) {db : Scripts.Db} (hdb : Reached db) : Inv (changed s db) where
  reached := hdb
  there := by
    intro n hn
    obtain ⟨o, ho, rfl⟩ := List.mem_map.1 hn
    obtain ⟨hmem, hc⟩ := List.mem_filter.1 ho
    exact mem_tables.2 ⟨o, hmem, (Bool.and_eq_true_iff.1 hc).1, rfl⟩
  all := by
    intro hd n hn
    obtain ⟨o, ho, ht, rfl⟩ := mem_tables.1 hn
    refine List.mem_map_of_mem (List.mem_filter.2 ⟨ho, ?_⟩)
    rw [ht, Bool.true_and]
    split_ifs with hold
    · -- what had the name before was a table too
      obtain ⟨o', ho', he⟩ := List.mem_map.1 hold
      have hkind := kinds o' (h.reached.objects ho') o (hdb.objects ho) he
      exact decide_eq_true (h.all hd o.name (mem_tables.2 ⟨o', ho', hkind.trans ht, he⟩))
    · exact hd

theorem exec_inv {s s' : St} {x : Scripts.Stmt} (h : Inv s) (hx : x.Within allObjects IsRel) (he : exec s x = some s') :
    Inv s' := by
  obtain ⟨db, hdb, rfl⟩ := Option.map_eq_some_iff.1 he
  exact changed_inv h (exec_within h.reached hx hdb)

theorem getD_inv {s : St} {o : Option St} (h : Inv s) (ho : ∀ s' ∈ o, Inv s') : Inv (o.getD s) := by
  cases o with
  | none => exact h
  | some s' => exact ho s' rfl

theorem run_exec_inv {script : List Scripts.Stmt} {s : St} (h : Inv s) (hs : ∀ x ∈ script, x.Within allObjects IsRel) :
    Inv (run (fun s x => (exec s x).getD s) s script) := by
  induction script generalizing s with
  | nil => exact h
  | cons x script ih =>
    have hfirst := getD_inv h fun s' hs' => exec_inv h (hs x List.mem_cons_self) hs'
    exact ih hfirst fun y hy => hs y (List.mem_cons_of_mem x hy)

theorem execAll_inv {script : List Scripts.Stmt} {s s' : St} (h : Inv s) (hs : ∀ x ∈ script, x.Within allObjects IsRel)
    (he : script.foldlM exec s = some s') : Inv s' := by
  induction script generalizing s with
  | nil => cases he; exact h
  | cons x script ih =>
    rw [List.foldlM_cons] at he
    obtain ⟨s1, h1, he⟩ := Option.bind_eq_some_iff.1 he
    exact ih (exec_inv h (hs x List.mem_cons_self) h1) (fun y hy => hs y (List.mem_cons_of_mem x hy)) he

theorem roleStep_inv {s : St} (h : Inv s) (r : RoleStmt) (hr : r = .alterDefault → ∀ n ∈ tables s.db, n ∈ s.readable) :
    Inv (roleStep compose s r) := by
  cases r with
  | createRole => exact ⟨h.reached, h.there, h.all⟩
  | grantConnect | grantUsage =>
    simp only [roleStep]
    split_ifs
    · exact ⟨h.reached, h.there, h.all⟩
    · exact h
  | grantSelect =>
    simp only [roleStep]
    split_ifs
    · exact ⟨h.reached, fun n hn => hn, fun _ n hn => hn⟩
    · exact h
  | alterDefault =>
    simp only [roleStep]
    split_ifs
    · exact ⟨h.reached, h.there, fun _ => hr rfl⟩
    · exact h

/-- the whole script -/
theorem addRoles_run (s : St) : run (roleStep compose) s addRoles =
    { s with
      role := true, connect := s.connect || compose, usage := true, readable := tables s.db, defaults := true } := by
  cases compose <;> simp [addRoles, roleStep]

theorem take_addRoles {count : ℕ} (h : count < 5) : .alterDefault ∉ addRoles.take count := by
  interval_cases count <;> decide

theorem step_inv (s : St) (o : Op) (h : Inv s) : Inv (step compose s o) := by
  cases o with
  | addRoles count =>
    by_cases hcount : count < 5
    · have hrun : ∀ (rs : List RoleStmt) (s : St), .alterDefault ∉ rs → Inv s → Inv (run (roleStep compose) s rs) := by
        intro rs
        induction rs with
        | nil => exact fun s _ hs => hs
        | cons r rs ih =>
          intro s hr hs
          rw [List.mem_cons, not_or] at hr
          exact ih _ hr.2 (roleStep_inv compose hs r fun he => absurd he.symm hr.1)
      exact hrun _ s (take_addRoles hcount) h
    · have hlen : addRoles.length ≤ count := by
        have : addRoles.length = 5 := rfl
        omega
      rw [step, List.take_of_length_le hlen, addRoles_run]
      exact ⟨h.reached, fun n hn => hn, fun _ n hn => hn⟩
  | deploy d =>
    cases d with
    | script script count currentDate =>
      exact run_exec_inv h fun x hx => stmts_within currentDate script x (List.mem_of_mem_take hx)
    | load l text payload viewed =>
      exact getD_inv h fun s' hs' => execAll_inv h (load_within l _ text payload viewed) hs'
    | rows table f =>
      refine getD_inv h fun s' hs' => exec_inv h ?_ hs'
      exact ⟨fun o ho => (by cases ho), fun n hn => ⟨table, List.mem_singleton.1 hn⟩⟩

theorem inv_start : Inv start := ⟨reached_empty, fun _ hn => absurd hn List.not_mem_nil, fun hd => (by cases hd)⟩

/-! ## Before and after the default privileges -/

/-- what holds of the flags of the role holds after statements on the catalog -/
theorem deploy_keeps {P : St → Prop} (hP : ∀ s db, P s → P (changed s db)) (s : St) (d : Redeploy.Op) (h : P s) :
    P (step compose s (.deploy d)) := by
  have hexec : ∀ s x, P s → ∀ s' ∈ exec s x, P s' := by
    intro s x hs s' hs'
    obtain ⟨db, -, rfl⟩ := Option.map_eq_some_iff.1 hs'
    exact hP s db hs
  have hgetD : ∀ s (o : Option St), P s → (∀ s' ∈ o, P s') → P (o.getD s) := by
    intro s o hs ho
    cases o with
    | none => exact hs
    | some s' => exact ho s' rfl
  cases d with
  | script script count currentDate =>
    exact run_inv (fun s x hs => hgetD s (exec s x) hs (hexec s x hs)) s _ h
  | load l text payload viewed =>
    have hall : ∀ (script : List Scripts.Stmt) (s : St), P s → ∀ s' ∈ script.foldlM exec s, P s' := by
      intro script
      induction script with
      | nil =>
        intro s hs s' hs'
        cases hs'
        exact hs
      | cons x script ih =>
        intro s hs s' hs'
        rw [List.foldlM_cons] at hs'
        obtain ⟨s1, h1, h2⟩ := Option.bind_eq_some_iff.1 hs'
        exact ih s1 (hexec s x hs s1 h1) s' h2
    exact hgetD s _ h (hall _ s h)
  | rows table f => exact hgetD s _ h (hexec s _ h)

/-- the role is there, and may read what will be created -/
structure Granted (s : St) : Prop where
  role : s.role = true
  usage : s.usage = true
  defaults : s.defaults = true

theorem roleStep_granted (s : St) (r : RoleStmt) (h : Granted s) : Granted (roleStep compose s r) := by
  cases r with
  | createRole => exact ⟨rfl, h.usage, h.defaults⟩
  | grantConnect | grantSelect =>
    simp only [roleStep]
    split_ifs
    · exact ⟨h.role, h.usage, h.defaults⟩
    · exact h
  | grantUsage =>
    simp only [roleStep]
    split_ifs
    · exact ⟨h.role, rfl, h.defaults⟩
    · exact h
  | alterDefault =>
    simp only [roleStep]
    split_ifs
    · exact ⟨h.role, h.usage, rfl⟩
    · exact h

theorem step_granted (s : St) (o : Op) (h : Granted s) : Granted (step compose s o) := by
  cases o with
  | addRoles count => exact run_inv (roleStep_granted compose) s _ h
  | deploy d => exact deploy_keeps compose (fun s db hs => ⟨hs.role, hs.usage, hs.defaults⟩) s d h

/-- nothing is granted on what is there, and nothing will be on what is created -/
def NothingGranted (s : St) : Prop := s.readable = [] ∧ s.defaults = false

theorem changed_nothing (s : St) (db : Scripts.Db) (h : NothingGranted s) : NothingGranted (changed s db) := by
  refine ⟨?_, h.2⟩
  rw [changed, h.1, h.2, List.filter_eq_nil_iff.2 fun o _ => by simp]
  rfl

/-- **What readonly may read.** Through any runs of the scripts, complete or cut off, and any loads, readonly may only
read tables and views that are there. Once 1_Add_Roles.sql has run to its end, the role is there with USAGE on the
schema, and in every later state it may read each of them. Cut off before its last statement, on a database without
tables, it lets readonly read nothing that is created later. -/
theorem readonly_exact (before after : List Op) (deployed : List Redeploy.Op) (count : ℕ) (hcount : count < 5) :
    (∀ n ∈ (run (step compose) start before).readable, n ∈ tables (run (step compose) start before).db) ∧
    (∀ s, s = run (step compose) start (before ++ .addRoles 5 :: after) →
      s.role = true ∧ s.usage = true ∧ ∀ n, n ∈ s.readable ↔ n ∈ tables s.db) ∧
    (run (step compose) start (.addRoles count :: deployed.map .deploy)).readable = [] := by
  have hinv : ∀ ops, Inv (run (step compose) start ops) := fun ops => run_inv (step_inv compose) start ops inv_start
  refine ⟨(hinv before).there, fun s hs => ?_, ?_⟩
  · have hgranted : Granted s := by
      rw [hs, run_append, run_cons]
      refine run_inv (step_granted compose) _ after ?_
      have hall : addRoles.take 5 = addRoles := rfl
      rw [step, hall, addRoles_run]
      exact ⟨rfl, rfl, rfl⟩
    have hs : Inv s := hs ▸ hinv _
    exact ⟨hgranted.role, hgranted.usage, fun n => ⟨hs.there n, hs.all hgranted.defaults n⟩⟩
  · have hcut : NothingGranted (step compose start (.addRoles count)) := by
      interval_cases count <;> cases compose <;> exact ⟨rfl, rfl⟩
    rw [run_cons]
    generalize step compose start (.addRoles count) = s at hcut
    have hrun : NothingGranted (run (step compose) s (deployed.map .deploy)) := by
      induction deployed generalizing s with
      | nil => exact hcut
      | cons d deployed ih => exact ih _ (deploy_keeps compose changed_nothing s d hcut)
    exact hrun.1

/-- the default privileges are missing, and readonly may read nothing of the schema that is created then -/
theorem readonly_exact_deployed : (run (step true) start
    (.addRoles 4 :: [Redeploy.Op.script .createLookupDb 40 0].map .deploy)).readable = [] :=
  (readonly_exact true [] [] [.script .createLookupDb 40 0] 4 (by decide)).2.2

end

end IconSetup.Roles
