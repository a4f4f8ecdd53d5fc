/-
A database's catalog: its objects, each with the object it is part of (`owner`: an index of its table) and the objects
it refers to (`uses`: a view its tables). Nothing may refer to an object that is not there (`Closed`).

- CREATE needs new names and existing references; IF NOT EXISTS and OR REPLACE accept a name that is there.
- DROP .. IF EXISTS does nothing for a missing name. Otherwise the object goes with its parts. What still refers to
  something gone goes too with CASCADE (`prune` repeats until nothing dangles), and makes a plain DROP fail.
- What an object holds (`contents`) goes with it. A statement on its rows is any function on them that may fail.

Results:
- `exec_effect`: what an accepted statement can do.
- `exec_wf`: an accepted statement keeps the references closed, the names unique and the contents attached.
- `exec_objects`: every object was there before or is one the statement creates.
- `exec_map`: statements other than those on rows do not look at what is stored.
- `drops_clean`: a script of drops, checked on the list of all objects there can ever be, runs without failure from
  every well-formed catalog of such objects, and leaves only objects that no drop reaches.
-/
import Mathlib.Tactic
import IconSetup.Core.Run

namespace IconSetup.Catalog

/-- an object named by `N` and defined by `D` -/
structure Obj (N D : Type) where
  name : N
  owner : Option N
  uses : List N
  definition : D
deriving DecidableEq, Repr

structure Db (N D V : Type) where
  objects : List (Obj N D)
  /-- the rows of the tables, each with the name of its table -/
  contents : List (N × V)
deriving DecidableEq, Repr

inductive Stmt (N D V : Type) where
  /-- CREATE of an object with its parts -/
  | create (o : Obj N D) (parts : List (Obj N D))
  | createIfNotExists (o : Obj N D) (parts : List (Obj N D))
  | createOrReplace (o : Obj N D)
  /-- CREATE TABLE .. AS SELECT * FROM source -/
  | createAs (o : Obj N D) (source : N)
  /-- DROP .. IF EXISTS -/
  | drop (n : N) (cascade : Bool)
  /-- a statement on the rows of a table -/
  | write (n : N) (f : List V → Option (List V))

variable {N D V W : Type}

def names (objects : List (Obj N D)) : List N := objects.map Obj.name

def Obj.deps (o : Obj N D) : List N := o.owner.toList ++ o.uses

/-- no reference dangles -/
def Closed (objects : List (Obj N D)) : Prop := ∀ o ∈ objects, ∀ d ∈ o.deps, d ∈ names objects

theorem names_append (a b : List (Obj N D)) : names (a ++ b) = names a ++ names b := List.map_append

/-- references are closed, names are unique, and every row belongs to an object -/
structure Wf (db : Db N D V) : Prop where
  closed : Closed db.objects
  nodup : (names db.objects).Nodup
  attached : ∀ r ∈ db.contents, r.1 ∈ names db.objects

theorem wf_empty : Wf (⟨[], []⟩ : Db N D V) :=
  ⟨fun o h => (by cases h), List.nodup_nil, fun r h => (by cases h)⟩

variable [DecidableEq N]

instance (objects : List (Obj N D)) : Decidable (Closed objects) := by unfold Closed; infer_instance

/-! ## Dropping what dangles -/

def sweep (deps : Obj N D → List N) (objects : List (Obj N D)) : List (Obj N D) :=
  objects.filter fun o => decide (∀ d ∈ deps o, d ∈ names objects)

/-- sweep until nothing dangles; one round for each object is enough -/
def prune (deps : Obj N D → List N) : ℕ → List (Obj N D) → List (Obj N D)
  | 0, objects => objects
  | fuel + 1, objects => prune deps fuel (sweep deps objects)

theorem prune_sublist (deps : Obj N D → List N) (fuel : ℕ) (objects : List (Obj N D)) :
    (prune deps fuel objects).Sublist objects := by
  induction fuel generalizing objects with
  | zero => exact List.Sublist.refl _
  | succ fuel ih => exact (ih _).trans List.filter_sublist

theorem prune_of_sweep (deps : Obj N D → List N) (fuel : ℕ) (objects : List (Obj N D))
    (h : sweep deps objects = objects) : prune deps fuel objects = objects := by
  induction fuel with
  | zero => rfl
  | succ fuel ih => rw [prune, h, ih]

theorem sweep_prune (deps : Obj N D → List N) (fuel : ℕ) (objects : List (Obj N D)) (hf : objects.length ≤ fuel) :
    sweep deps (prune deps fuel objects) = prune deps fuel objects := by
  induction fuel generalizing objects with
  | zero =>
    rw [List.length_eq_zero_iff.1 (Nat.le_zero.1 hf)]
    rfl
  | succ fuel ih =>
    by_cases hs : sweep deps objects = objects
    · rw [prune_of_sweep deps _ _ hs, hs]
    · have hlt : (sweep deps objects).length < objects.length := by
        refine lt_of_le_of_ne List.filter_sublist.length_le fun he => hs ?_
        exact List.filter_sublist.eq_of_length he
      exact ih _ (by omega)

theorem prune_deps (deps : Obj N D → List N) (objects : List (Obj N D)) :
    ∀ o ∈ prune deps objects.length objects, ∀ d ∈ deps o, d ∈ names (prune deps objects.length objects) := by
  intro o ho
  rw [← sweep_prune deps objects.length objects le_rfl] at ho
  simpa using (List.mem_filter.1 ho).2

/-! ## Statements -/

/-- an object and its parts can be created: the names are new, and what they refer to is there -/
def Creatable (objects new : List (Obj N D)) : Prop :=
  (names new).Nodup ∧ (∀ p ∈ new, p.name ∉ names objects) ∧ ∀ p ∈ new, ∀ d ∈ p.deps, d ∈ names (objects ++ new)

instance (objects new : List (Obj N D)) : Decidable (Creatable objects new) := by unfold Creatable; infer_instance

def without (objects : List (Obj N D)) (n : N) : List (Obj N D) := objects.filter fun o => decide (o.name ≠ n)

/-- DROP .. CASCADE -/
def cascaded (objects : List (Obj N D)) (n : N) : List (Obj N D) :=
  prune Obj.deps (without objects n).length (without objects n)

/-- the object and its parts are gone -/
def removed (objects : List (Obj N D)) (n : N) : List (Obj N D) :=
  prune (fun o => o.owner.toList) (without objects n).length (without objects n)

def keep (objects : List (Obj N D)) (contents : List (N × V)) : List (N × V) :=
  contents.filter fun r => decide (r.1 ∈ names objects)

def rowsOf (db : Db N D V) (n : N) : List V := (db.contents.filter fun r => decide (r.1 = n)).map Prod.snd

def replace (objects : List (Obj N D)) (o : Obj N D) : List (Obj N D) :=
  objects.map fun x => if x.name = o.name then o else x

/-- the database after an accepted statement; `none` when it fails -/
def exec (db : Db N D V) : Stmt N D V → Option (Db N D V)
  | .create o parts =>
    if Creatable db.objects (o :: parts) then some { db with objects := db.objects ++ o :: parts } else none
  | .createIfNotExists o parts =>
    if o.name ∈ names db.objects then some db
    else if Creatable db.objects (o :: parts) then some { db with objects := db.objects ++ o :: parts }
    else none
  | .createOrReplace o =>
    if o.name ∈ names db.objects then
      if ∀ d ∈ o.deps, d ∈ names db.objects then some { db with objects := replace db.objects o } else none
    else if Creatable db.objects [o] then some { db with objects := db.objects ++ [o] }
    else none
  | .createAs o source =>
    if source ∈ names db.objects ∧ Creatable db.objects [o] then
      some ⟨db.objects ++ [o], db.contents ++ (rowsOf db source).map (o.name, ·)⟩
    else none
  | .drop n cascade =>
    if n ∈ names db.objects then
      if cascade then some ⟨cascaded db.objects n, keep (cascaded db.objects n) db.contents⟩
      else if Closed (removed db.objects n) then some ⟨removed db.objects n, keep (removed db.objects n) db.contents⟩
      else none
    else some db
  | .write n f =>
    if n ∈ names db.objects then
      match f (rowsOf db n) with
      | none => none
      | some rows => some { db with contents := (db.contents.filter fun r => decide (r.1 ≠ n)) ++ rows.map (n, ·) }
    else none

/-- psql carries on after a statement that failed -/
def step (db : Db N D V) (s : Stmt N D V) : Db N D V := (exec db s).getD db

/-- a script in which no statement may fail -/
def execAll (db : Db N D V) (script : List (Stmt N D V)) : Option (Db N D V) := script.foldlM exec db

theorem execAll_cons (db : Db N D V) (s : Stmt N D V) (script : List (Stmt N D V)) :
    execAll db (s :: script) = (exec db s).bind fun db' => execAll db' script := List.foldlM_cons

theorem execAll_append (db : Db N D V) (a b : List (Stmt N D V)) :
    execAll db (a ++ b) = (execAll db a).bind fun db' => execAll db' b := List.foldlM_append

/-- the objects that a statement may create -/
def Stmt.objects : Stmt N D V → List (Obj N D)
  | .create o parts => o :: parts
  | .createIfNotExists o parts => o :: parts
  | .createOrReplace o => [o]
  | .createAs o _ => [o]
  | .drop _ _ => []
  | .write _ _ => []

/-- the names whose rows a statement may add to -/
def Stmt.targets : Stmt N D V → List N
  | .createAs o _ => [o.name]
  | .write n _ => [n]
  | _ => []

/-- a statement on the rows of a table fails with its function, or leaves the rows that the function gives -/
theorem exec_write (db : Db N D V) {n : N} (hn : n ∈ names db.objects) (f : List V → Option (List V)) :
    (exec db (.write n f)).map (rowsOf · n) = f (rowsOf db n) := by
  simp only [exec, if_pos hn]
  cases f (rowsOf db n) with
  | none => rfl
  | some rows =>
    simp only [Option.map_some, rowsOf]
    rw [List.filter_append, List.filter_filter, List.filter_map]
    simp [Function.comp_def]

/-! ## Well-formed databases -/

theorem names_replace (objects : List (Obj N D)) (o : Obj N D) : names (replace objects o) = names objects := by
  rw [names, replace, List.map_map]
  apply List.map_congr_left
  intro x _
  simp only [Function.comp_apply]
  split_ifs with h
  · exact h.symm
  · rfl

omit [DecidableEq N] in
theorem closed_append {objects new : List (Obj N D)} (h : Closed objects) (hc : Creatable objects new) :
    Closed (objects ++ new) := by
  intro o ho d hd
  rcases List.mem_append.1 ho with ho | ho
  · rw [names_append]; exact List.mem_append_left _ (h o ho d hd)
  · exact hc.2.2 o ho d hd

omit [DecidableEq N] in
theorem wf_append {objects new : List (Obj N D)} {contents : List (N × V)} (h : Wf ⟨objects, contents⟩)
    (hc : Creatable objects new) : Wf ⟨objects ++ new, contents⟩ := by
  refine ⟨closed_append h.closed hc, ?_, fun r hr => ?_⟩
  · simp only [names_append]
    refine List.nodup_append.2 ⟨h.nodup, hc.1, fun a ha b hb he => ?_⟩
    obtain ⟨p, hp, rfl⟩ := List.mem_map.1 hb
    exact hc.2.1 p hp (he ▸ ha)
  · simp only [names_append]
    exact List.mem_append_left _ (h.attached r hr)

theorem without_sublist (objects : List (Obj N D)) (n : N) : (without objects n).Sublist objects :=
  List.filter_sublist

theorem not_mem_without (objects : List (Obj N D)) (n : N) : n ∉ names (without objects n) := by
  intro h
  obtain ⟨o, ho, rfl⟩ := List.mem_map.1 h
  simpa using (List.mem_filter.1 ho).2

theorem cascaded_sublist (objects : List (Obj N D)) (n : N) : (cascaded objects n).Sublist objects :=
  (prune_sublist _ _ _).trans (without_sublist objects n)

theorem removed_sublist (objects : List (Obj N D)) (n : N) : (removed objects n).Sublist objects :=
  (prune_sublist _ _ _).trans (without_sublist objects n)

theorem wf_sublist {db : Db N D V} (h : Wf db) {objects : List (Obj N D)} (hs : objects.Sublist db.objects)
    (hc : Closed objects) : Wf ⟨objects, keep objects db.contents⟩ := by
  refine ⟨hc, h.nodup.sublist (hs.map _), fun r hr => ?_⟩
  simpa using (List.mem_filter.1 hr).2

/-- what an accepted statement may have done -/
inductive Effect (db : Db N D V) (s : Stmt N D V) : Db N D V → Prop where
  | nothing : Effect db s db
  | added (new : List (Obj N D)) (hc : Creatable db.objects new) (hs : new ⊆ s.objects) :
    Effect db s { db with objects := db.objects ++ new }
  | replaced (o : Obj N D) (hd : ∀ d ∈ o.deps, d ∈ names db.objects) (hs : o ∈ s.objects) :
    Effect db s { db with objects := replace db.objects o }
  | copied (o : Obj N D) (rows : List V) (hc : Creatable db.objects [o]) (hs : o ∈ s.objects)
    (ht : o.name ∈ s.targets) : Effect db s ⟨db.objects ++ [o], db.contents ++ rows.map (o.name, ·)⟩
  | dropped (objects : List (Obj N D)) (hsub : objects.Sublist db.objects) (hc : Closed objects) :
    Effect db s ⟨objects, keep objects db.contents⟩
  | written (n : N) (rows : List V) (hn : n ∈ names db.objects) (ht : n ∈ s.targets) :
    Effect db s { db with contents := (db.contents.filter fun r => decide (r.1 ≠ n)) ++ rows.map (n, ·) }

theorem exec_effect {db db' : Db N D V} {s : Stmt N D V} (he : exec db s = some db') : Effect db s db' := by
  cases s with
  | create o parts =>
    simp only [exec] at he
    split_ifs at he with hc
    cases he
    exact .added _ hc (List.Subset.refl _)
  | createIfNotExists o parts =>
    simp only [exec] at he
    split_ifs at he with hm hc
    · cases he; exact .nothing
    · cases he; exact .added _ hc (List.Subset.refl _)
  | createOrReplace o =>
    simp only [exec] at he
    split_ifs at he with hm hd hc
    · cases he; exact .replaced o hd (List.mem_singleton.2 rfl)
    · cases he; exact .added _ hc (List.Subset.refl _)
  | createAs o source =>
    simp only [exec] at he
    split_ifs at he with hc
    cases he
    exact .copied o _ hc.2 (List.mem_singleton.2 rfl) (List.mem_singleton.2 rfl)
  | drop n cascade =>
    simp only [exec] at he
    split_ifs at he with hn hcas hcl
    · cases he; exact .dropped _ (cascaded_sublist _ _) (prune_deps _ _)
    · cases he; exact .dropped _ (removed_sublist _ _) hcl
    · cases he; exact .nothing
  | write n f =>
    simp only [exec] at he
    split_ifs at he with hn
    split at he
    · cases he
    · cases he; exact .written n _ hn (List.mem_singleton.2 rfl)

theorem mem_replace {objects : List (Obj N D)} {o x : Obj N D} (h : x ∈ replace objects o) : x = o ∨ x ∈ objects := by
  obtain ⟨y, hy, rfl⟩ := List.mem_map.1 h
  split_ifs
  · exact Or.inl rfl
  · exact Or.inr hy

theorem exec_wf {db db' : Db N D V} {s : Stmt N D V} (h : Wf db) (he : exec db s = some db') : Wf db' := by
  cases exec_effect he with
  | nothing => exact h
  | added new hc hs => exact wf_append h hc
  | replaced o hd hs =>
    refine ⟨?_, by simp only [names_replace]; exact h.nodup, by simp only [names_replace]; exact h.attached⟩
    intro x hx d hdx
    simp only [names_replace]
    rcases mem_replace hx with rfl | hx
    · exact hd d hdx
    · exact h.closed x hx d hdx
  | copied o rows hc hs ht =>
    have hw := wf_append h hc
    refine ⟨hw.closed, hw.nodup, ?_⟩
    intro r hr
    rcases List.mem_append.1 hr with hr | hr
    · exact hw.attached r hr
    · obtain ⟨v, -, rfl⟩ := List.mem_map.1 hr
      simp [names]
  | dropped objects hsub hc => exact wf_sublist h hsub hc
  | written n rows hn ht =>
    refine ⟨h.closed, h.nodup, ?_⟩
    intro r hr
    rcases List.mem_append.1 hr with hr | hr
    · exact h.attached r (List.mem_filter.1 hr).1
    · obtain ⟨v, -, rfl⟩ := List.mem_map.1 hr
      exact hn

theorem exec_objects {db db' : Db N D V} {s : Stmt N D V} (he : exec db s = some db') :
    ∀ o ∈ db'.objects, o ∈ db.objects ∨ o ∈ s.objects := by
  intro x hx
  cases exec_effect he with
  | nothing => exact Or.inl hx
  | added new hc hs => exact (List.mem_append.1 hx).imp_right fun hx => hs hx
  | replaced o hd hs =>
    rcases mem_replace hx with rfl | hx
    · exact Or.inr hs
    · exact Or.inl hx
  | copied o rows hc hs ht =>
    rcases List.mem_append.1 hx with hx | hx
    · exact Or.inl hx
    · rw [List.mem_singleton.1 hx]
      exact Or.inr hs
  | dropped objects hsub hc => exact Or.inl (hsub.subset hx)
  | written n rows hn ht => exact Or.inl hx

/-! ## All that can be there -/

/-- a well-formed database with objects among `all`, and rows in tables only -/
structure Within (all : List (Obj N D)) (isTable : N → Prop) (db : Db N D V) : Prop where
  wf : Wf db
  objects : db.objects ⊆ all
  rows : ∀ r ∈ db.contents, isTable r.1

/-- a statement that creates objects among `all` and adds rows to tables only -/
structure Stmt.Within (all : List (Obj N D)) (isTable : N → Prop) (s : Stmt N D V) : Prop where
  objects : s.objects ⊆ all
  targets : ∀ n ∈ s.targets, isTable n

theorem exec_rows {db db' : Db N D V} {s : Stmt N D V} {isTable : N → Prop} (h : ∀ r ∈ db.contents, isTable r.1)
    (hs : ∀ n ∈ s.targets, isTable n) (he : exec db s = some db') : ∀ r ∈ db'.contents, isTable r.1 := by
  cases exec_effect he with
  | nothing => exact h
  | added new hc hnew => exact h
  | replaced o hd ho => exact h
  | copied o rows hc ho ht =>
    intro r hr
    rcases List.mem_append.1 hr with hr | hr
    · exact h r hr
    · obtain ⟨v, -, rfl⟩ := List.mem_map.1 hr
      exact hs o.name ht
  | dropped objects hsub hc => exact fun r hr => h r (List.mem_filter.1 hr).1
  | written n rows hn ht =>
    intro r hr
    rcases List.mem_append.1 hr with hr | hr
    · exact h r (List.mem_filter.1 hr).1
    · obtain ⟨v, -, rfl⟩ := List.mem_map.1 hr
      exact hs n ht

theorem exec_within {db db' : Db N D V} {s : Stmt N D V} {all : List (Obj N D)} {isTable : N → Prop}
    (h : Within all isTable db) (hs : s.Within all isTable) (he : exec db s = some db') : Within all isTable db' := by
  refine ⟨exec_wf h.wf he, fun o ho => ?_, exec_rows h.rows hs.targets he⟩
  rcases exec_objects he o ho with ho | ho
  · exact h.objects ho
  · exact hs.objects ho

theorem step_within {db : Db N D V} {s : Stmt N D V} {all : List (Obj N D)} {isTable : N → Prop}
    (h : Within all isTable db) (hs : s.Within all isTable) : Within all isTable (step db s) := by
  unfold step
  cases he : exec db s with
  | none => exact h
  | some db' => exact exec_within h hs he

/-- psql runs a script to its end, whatever fails -/
theorem run_within {db : Db N D V} (script : List (Stmt N D V)) {all : List (Obj N D)} {isTable : N → Prop}
    (h : Within all isTable db) (hs : ∀ s ∈ script, s.Within all isTable) :
    Within all isTable (Run.run step db script) := by
  induction script generalizing db with
  | nil => exact h
  | cons s script ih =>
    exact ih (step_within h (hs s List.mem_cons_self)) fun x hx => hs x (List.mem_cons_of_mem s hx)

theorem execAll_within {db db' : Db N D V} (script : List (Stmt N D V)) {all : List (Obj N D)} {isTable : N → Prop}
    (h : Within all isTable db) (hs : ∀ s ∈ script, s.Within all isTable) (he : execAll db script = some db') :
    Within all isTable db' := by
  induction script generalizing db with
  | nil => cases he; exact h
  | cons s script ih =>
    rw [execAll_cons] at he
    obtain ⟨db1, h1, he⟩ := Option.bind_eq_some_iff.1 he
    exact ih (exec_within h (hs s List.mem_cons_self) h1) (fun x hx => hs x (List.mem_cons_of_mem s hx)) he

/-! ## Values do not matter -/

/-- every stored row goes through `g` -/
def mapRows (g : V → V) (db : Db N D V) : Db N D V := { db with contents := db.contents.map fun r => (r.1, g r.2) }

def Stmt.IsWrite : Stmt N D V → Prop
  | .write _ _ => True
  | _ => False

omit [DecidableEq N] in
theorem filter_mapRows (p : N → Bool) (g : V → V) (contents : List (N × V)) :
    (contents.map fun r => (r.1, g r.2)).filter (fun r => p r.1) =
      (contents.filter fun r => p r.1).map fun r => (r.1, g r.2) := by
  rw [List.filter_map]
  rfl

theorem keep_mapRows (objects : List (Obj N D)) (g : V → V) (contents : List (N × V)) :
    keep objects (contents.map fun r => (r.1, g r.2)) = (keep objects contents).map fun r => (r.1, g r.2) :=
  filter_mapRows (fun n => decide (n ∈ names objects)) g contents

theorem rowsOf_mapRows (g : V → V) (db : Db N D V) (n : N) : rowsOf (mapRows g db) n = (rowsOf db n).map g := by
  simp only [rowsOf, mapRows]
  rw [filter_mapRows (fun m => decide (m = n)), List.map_map, List.map_map]
  rfl

theorem exec_map (g : V → V) (db : Db N D V) (s : Stmt N D V) (hs : ¬ s.IsWrite) :
    exec (mapRows g db) s = (exec db s).map (mapRows g) := by
  have hobj : (mapRows g db).objects = db.objects := rfl
  cases s with
  | create o parts =>
    simp only [exec, hobj]
    split_ifs <;> rfl
  | createIfNotExists o parts =>
    simp only [exec, hobj]
    split_ifs <;> rfl
  | createOrReplace o =>
    simp only [exec, hobj]
    split_ifs <;> rfl
  | createAs o source =>
    simp only [exec, hobj, rowsOf_mapRows]
    split_ifs
    · simp only [Option.map_some, mapRows, List.map_append, List.map_map]
      rfl
    · rfl
  | drop n cascade =>
    simp only [exec, hobj]
    split_ifs
    · simp only [Option.map_some, mapRows, keep_mapRows]
    · simp only [Option.map_some, mapRows, keep_mapRows]
    · rfl
    · rfl
  | write n f => exact absurd trivial hs

theorem execAll_map (g : V → V) (db : Db N D V) (script : List (Stmt N D V)) (hs : ∀ s ∈ script, ¬ s.IsWrite) :
    execAll (mapRows g db) script = (execAll db script).map (mapRows g) := by
  induction script generalizing db with
  | nil => rfl
  | cons s script ih =>
    rw [execAll_cons, execAll_cons, exec_map g db s (hs s List.mem_cons_self)]
    cases exec db s with
    | none => rfl
    | some db' => exact ih db' fun x hx => hs x (List.mem_cons_of_mem s hx)

/-! ## Drops -/

/-- the objects that can be there when none of `gone` is -/
def survivors (all : List (Obj N D)) (gone : List N) : List (Obj N D) :=
  all.filter fun o => decide (o.name ∉ gone ∧ ∀ d ∈ o.deps, d ∉ gone)

theorem subset_survivors {db : Db N D V} {all : List (Obj N D)} {gone : List N} (h : Wf db) (hall : db.objects ⊆ all)
    (hgone : ∀ n ∈ gone, n ∉ names db.objects) : db.objects ⊆ survivors all gone := by
  intro o ho
  refine List.mem_filter.2 ⟨hall ho, decide_eq_true ⟨fun hn => ?_, fun d hd hn => ?_⟩⟩
  · exact hgone _ hn (List.mem_map_of_mem ho)
  · exact hgone d hn (h.closed o ho d hd)

/-- a drop removes the name and adds nothing -/
theorem exec_drop {db db' : Db N D V} {n : N} {cascade : Bool} (he : exec db (.drop n cascade) = some db') :
    n ∉ names db'.objects ∧ db'.objects.Sublist db.objects := by
  simp only [exec] at he
  split_ifs at he with hn hc hcl
  · cases he
    exact ⟨fun hm => not_mem_without db.objects n (((prune_sublist _ _ _).map _).subset hm), cascaded_sublist _ _⟩
  · cases he
    exact ⟨fun hm => not_mem_without db.objects n (((prune_sublist _ _ _).map _).subset hm), removed_sublist _ _⟩
  · cases he
    exact ⟨hn, List.Sublist.refl _⟩

theorem drop_cascade_ok (db : Db N D V) (n : N) : ∃ db', exec db (.drop n true) = some db' := by
  simp only [exec, if_true]
  split_ifs
  · exact ⟨_, rfl⟩
  · exact ⟨_, rfl⟩

/-- a plain DROP succeeds where nothing uses anything -/
theorem drop_restrict_ok {db : Db N D V} (n : N) (hu : ∀ o ∈ db.objects, o.uses = []) :
    ∃ db', exec db (.drop n false) = some db' := by
  have hc : Closed (removed db.objects n) := by
    intro o ho d hd
    rw [Obj.deps, hu o ((removed_sublist _ _).subset ho), List.append_nil] at hd
    exact prune_deps (fun o : Obj N D => o.owner.toList) (without db.objects n) o ho d hd
  simp only [exec, hc, if_true, Bool.false_eq_true, if_false]
  split_ifs
  · exact ⟨_, rfl⟩
  · exact ⟨_, rfl⟩

/-- A script of drops, checked on `all`: when a plain DROP comes, none of the objects that can still be there uses
anything. -/
def DropsClean (all : List (Obj N D)) : List N → List (N × Bool) → Prop
  | _, [] => True
  | gone, (n, cascade) :: drops =>
    (cascade = true ∨ ∀ o ∈ survivors all gone, o.uses = []) ∧ DropsClean all (n :: gone) drops

instance decidableDropsClean (all : List (Obj N D)) (gone : List N) (drops : List (N × Bool)) :
    Decidable (DropsClean all gone drops) :=
  match drops with
  | [] => isTrue trivial
  | (n, cascade) :: drops =>
    have := decidableDropsClean all (n :: gone) drops
    inferInstanceAs (Decidable ((cascade = true ∨ ∀ o ∈ survivors all gone, o.uses = []) ∧
      DropsClean all (n :: gone) drops))

/-- the statements of a script of drops -/
def dropStmts (drops : List (N × Bool)) : List (Stmt N D V) := drops.map fun d => .drop d.1 d.2

theorem drops_clean {all : List (Obj N D)} (drops : List (N × Bool)) {gone : List N} {db : Db N D V} (h : Wf db)
    (hall : db.objects ⊆ all) (hgone : ∀ n ∈ gone, n ∉ names db.objects) (hc : DropsClean all gone drops) :
    ∃ db', execAll db (dropStmts drops) = some db' ∧ Wf db' ∧ db'.objects.Sublist db.objects ∧
      db'.objects ⊆ survivors all ((drops.map Prod.fst).reverse ++ gone) := by
  induction drops generalizing gone db with
  | nil => exact ⟨db, rfl, h, List.Sublist.refl _, subset_survivors h hall hgone⟩
  | cons d drops ih =>
    obtain ⟨n, cascade⟩ := d
    have hok : ∃ db1, exec db (.drop n cascade) = some db1 := by
      rcases hc.1 with rfl | hu
      · exact drop_cascade_ok db n
      · cases cascade with
        | true => exact drop_cascade_ok db n
        | false => exact drop_restrict_ok n fun o ho => hu o (subset_survivors h hall hgone ho)
    obtain ⟨db1, h1⟩ := hok
    obtain ⟨hn, hsub⟩ := exec_drop h1
    have hgone1 : ∀ m ∈ n :: gone, m ∉ names db1.objects := by
      intro m hm hmem
      rcases List.mem_cons.1 hm with rfl | hm
      · exact hn hmem
      · exact hgone m hm ((hsub.map _).subset hmem)
    obtain ⟨db', hrun, hwf, hsub', hsurv⟩ := ih (exec_wf h h1) (fun o ho => hall (hsub.subset ho)) hgone1 hc.2
    refine ⟨db', ?_, hwf, hsub'.trans hsub, ?_⟩
    · rw [dropStmts, List.map_cons, execAll_cons, h1]
      exact hrun
    · simpa using hsurv

end IconSetup.Catalog
