/-
DumpLookups, which writes the rows of six lookup tables to six files, DumpLookupsDelete, which removes the files, and
what psql makes of the files later. Each pg_dump reads its table in a transaction of its own, so the six files may be of
six different moments. A file is its COPY; its SET lines touch no data and are left out.

- `copyFrom_pgDump`: each file is read back as the rows that it was written from.
- `restored`: what a new database holds once the files are in. A file of links is refused as a whole unless the files
  before it bring every row that its links refer to.
- `restore_any_order`: so it is, for any of the files, in any order, of any moments.
- `dump_clear_restore`: dumped and cleared, the tables come back as they were iff each file of links that has rows comes
  after the two it refers to. The lots do not come back: no pg_dump writes them.
- `alphabetical_order`: in the order in which a shell lists the files, the diseases of all agents are lost.
-/
import Mathlib.Tactic
import IconSetup.Core.Run
import IconSetup.Core.Session
import IconSetup.Core.CopyOut
import IconSetup.Lookup.Schema
import IconSetup.Lookup.TableColumns
import IconSetup.Lookup.Statements
import IconSetup.Lookup.LookupData
import IconSetup.Lookup.Reload

namespace IconSetup.DumpLookups

open IconSetup.Run IconSetup.Session IconSetup.CopyOut IconSetup.TableColumns IconSetup.LookupData IconSetup.Reload
open IconSetup.Schema (Trade Agent Disease TradeAgent AgentDisease Keys ForeignKeys)
open IconSetup.Views (DbLocale)
open IconSetup.Loaders (Pg SchoolDaycare)

/-! ## The files -/

inductive Table where
  | agents
  | diseases
  | trades
  | agentsDiseases
  | tradesAgents
  | schoolsDaycares
deriving DecidableEq, Repr

/-- the tables in the order of the script -/
def dumpLookups : List Table := [.agents, .diseases, .trades, .agentsDiseases, .tradesAgents, .schoolsDaycares]

def fileName : Table → String
  | .agents => "agents.sql"
  | .diseases => "diseases.sql"
  | .trades => "trades.sql"
  | .agentsDiseases => "agents_diseases.sql"
  | .tradesAgents => "trades_agents.sql"
  | .schoolsDaycares => "schools_daycares.sql"

/-- the operands of `rm` in DumpLookupsDelete -/
def dumpLookupsDelete : List String :=
  ["agents.sql", "agents_diseases.sql", "diseases.sql", "schools_daycares.sql", "trades.sql", "trades_agents.sql"]

/-- every file that is written is removed, and no other -/
theorem delete_perm : dumpLookupsDelete.Perm (dumpLookups.map fileName) := by decide

/-- `pg_dump -U admin -d compose -a -t table` -/
def pgDump (db : Db) : Table → List Char
  | .agents => agentColumns.copyOut db.lookup.agents
  | .diseases => diseaseColumns.copyOut db.lookup.diseases
  | .trades => tradeColumns.copyOut db.lookup.trades
  | .agentsDiseases => agentDiseaseColumns.copyOut db.lookup.agentsDiseases
  | .tradesAgents => tradeAgentColumns.copyOut db.lookup.tradesAgents
  | .schoolsDaycares => schoolDaycareColumns.copyOut db.schoolsDaycares.target

/-- the COPY of a file; `none` when its text is not that of the table's rows -/
def copyFrom : Table → List Char → Option Stmt
  | .agents, f => (agentColumns.copyIn f).map fun rows => .lookup (Statements.Rows.agents rows).copy
  | .diseases, f => (diseaseColumns.copyIn f).map fun rows => .lookup (Statements.Rows.diseases rows).copy
  | .trades, f => (tradeColumns.copyIn f).map fun rows => .lookup (Statements.Rows.trades rows).copy
  | .agentsDiseases, f =>
    (agentDiseaseColumns.copyIn f).map fun rows => .lookup (Statements.Rows.agentsDiseases rows).copy
  | .tradesAgents, f => (tradeAgentColumns.copyIn f).map fun rows => .lookup (Statements.Rows.tradesAgents rows).copy
  | .schoolsDaycares, f => (schoolDaycareColumns.copyIn f).map fun rows => .schoolsDaycares (.copy rows)

/-- the stored values are of their columns' types -/
structure Typed (db : Db) : Prop where
  agents : ∀ r ∈ db.lookup.agents, agentColumns.valid r = true
  diseases : ∀ r ∈ db.lookup.diseases, diseaseColumns.valid r = true
  trades : ∀ r ∈ db.lookup.trades, tradeColumns.valid r = true
  agentsDiseases : ∀ r ∈ db.lookup.agentsDiseases, agentDiseaseColumns.valid r = true
  tradesAgents : ∀ r ∈ db.lookup.tradesAgents, tradeAgentColumns.valid r = true
  schoolsDaycares : ∀ r ∈ db.schoolsDaycares.target, schoolDaycareColumns.valid r = true

/-- COPY of the rows that a table holds -/
def copyOf (db : Db) : Table → Stmt
  | .agents => .lookup (Statements.Rows.agents db.lookup.agents).copy
  | .diseases => .lookup (Statements.Rows.diseases db.lookup.diseases).copy
  | .trades => .lookup (Statements.Rows.trades db.lookup.trades).copy
  | .agentsDiseases => .lookup (Statements.Rows.agentsDiseases db.lookup.agentsDiseases).copy
  | .tradesAgents => .lookup (Statements.Rows.tradesAgents db.lookup.tradesAgents).copy
  | .schoolsDaycares => .schoolsDaycares (.copy db.schoolsDaycares.target)

/-- **A file is read back as the rows that it was written from.** -/
theorem copyFrom_pgDump {db : Db} (h : Typed db) (t : Table) : copyFrom t (pgDump db t) = some (copyOf db t) := by
  cases t with
  | agents => simp only [copyFrom, pgDump, copyIn_copyOut _ h.agents, Option.map_some, copyOf]
  | diseases => simp only [copyFrom, pgDump, copyIn_copyOut _ h.diseases, Option.map_some, copyOf]
  | trades => simp only [copyFrom, pgDump, copyIn_copyOut _ h.trades, Option.map_some, copyOf]
  | agentsDiseases => simp only [copyFrom, pgDump, copyIn_copyOut _ h.agentsDiseases, Option.map_some, copyOf]
  | tradesAgents => simp only [copyFrom, pgDump, copyIn_copyOut _ h.tradesAgents, Option.map_some, copyOf]
  | schoolsDaycares => simp only [copyFrom, pgDump, copyIn_copyOut _ h.schoolsDaycares, Option.map_some, copyOf]

/-! ## psql runs the files -/

section
variable (pg : Pg) (loc : DbLocale)

/-- `psql -f` with one file; a COPY that fails changes nothing -/
def restoreFile (db : Db) (file : Table × List Char) : Db :=
  match copyFrom file.1 file.2 with
  | none => db
  | some s => commands pg loc db [.stmt s]

def restore (db : Db) (files : List (Table × List Char)) : Db := run (restoreFile pg loc) db files

end

/-- the files, in some order, of the moments at which they were written -/
def files (moment : Table → Db) (order : List Table) : List (Table × List Char) :=
  order.map fun t => (t, pgDump (moment t) t)

/-- the files that come before another -/
def before (t : Table) (order : List Table) : List Table := order.takeWhile (· ≠ t)

section
variable (moment : Table → Db) (order : List Table)

/-- what the files of the three tables with keys of their own bring -/
def parents : Schema.Db where
  agents := if .agents ∈ order then (moment .agents).lookup.agents else []
  diseases := if .diseases ∈ order then (moment .diseases).lookup.diseases else []
  trades := if .trades ∈ order then (moment .trades).lookup.trades else []
  tradesAgents := []
  agentsDiseases := []

/-- a file of links is taken when, with the files before it, the tables with its links satisfy the foreign keys -/
def taken {L : Type} (t : Table) (links : List L) (add : Schema.Db → Schema.Db) : List L :=
  if t ∈ order ∧ ForeignKeys (add (parents moment (before t order))) then links else []

/-- the five tables, when the files find them empty -/
def restored : Schema.Db :=
  { parents moment order with
    tradesAgents := taken moment order .tradesAgents (moment .tradesAgents).lookup.tradesAgents
      fun db => { db with tradesAgents := (moment .tradesAgents).lookup.tradesAgents }
    agentsDiseases := taken moment order .agentsDiseases (moment .agentsDiseases).lookup.agentsDiseases
      fun db => { db with agentsDiseases := (moment .agentsDiseases).lookup.agentsDiseases } }

def restoredSchools : List SchoolDaycare :=
  if .schoolsDaycares ∈ order then (moment .schoolsDaycares).schoolsDaycares.target else []

end

/-! ## Which files come before which -/

section
variable {t u : Table} {p q : List Table}

theorem before_append (h : t ∉ p) : before t (p ++ [t]) = p := by
  have hall : ∀ v ∈ p, decide (v ≠ t) = true := fun v hv => decide_eq_true fun he => h (he ▸ hv)
  rw [before, List.takeWhile_append_of_pos hall, List.takeWhile_cons_of_neg (by simp), List.append_nil]

theorem before_of_mem (h : t ∈ p) (q : List Table) : before t (p ++ q) = before t p := by
  induction p with
  | nil => cases h
  | cons v p ih =>
    by_cases hv : v = t
    · subst hv
      rw [before, before, List.cons_append, List.takeWhile_cons_of_neg (by simp), List.takeWhile_cons_of_neg (by simp)]
    · have hmem : t ∈ p := (List.mem_cons.1 h).resolve_left (Ne.symm hv)
      rw [before, before, List.cons_append, List.takeWhile_cons_of_pos (by simpa using hv),
        List.takeWhile_cons_of_pos (by simpa using hv)]
      exact congrArg (v :: ·) (ih hmem)

theorem before_subset (t : Table) (p : List Table) : before t p ⊆ p := List.takeWhile_subset _

end

/-! ## What the files bring -/

section
variable {moment : Table → Db} {p q : List Table} {t u : Table}

theorem parents_mono (moment : Table → Db) (h : p ⊆ q) : (parents moment p).agents ⊆ (parents moment q).agents ∧
    (parents moment p).diseases ⊆ (parents moment q).diseases ∧
    (parents moment p).trades ⊆ (parents moment q).trades := by
  have hmono : ∀ {R : Type} (t : Table) (rows : List R), (if t ∈ p then rows else []) ⊆ if t ∈ q then rows else [] := by
    intro R t rows
    by_cases ht : t ∈ p
    · rw [if_pos ht, if_pos (h ht)]
      exact List.Subset.refl rows
    · rw [if_neg ht]
      exact List.nil_subset _
  exact ⟨hmono _ _, hmono _ _, hmono _ _⟩

theorem mem_taken {L : Type} {links : List L} {add : Schema.Db → Schema.Db} {l : L}
    (h : l ∈ taken moment p t links add) : l ∈ links ∧ ForeignKeys (add (parents moment (before t p))) := by
  unfold taken at h
  split_ifs at h with hc
  · exact ⟨h, hc.2⟩
  · cases h

theorem taken_sublist {L : Type} (links : List L) (add : Schema.Db → Schema.Db) :
    (taken moment p t links add).Sublist links := by
  unfold taken
  split_ifs
  · exact List.Sublist.refl links
  · exact List.nil_sublist links

/-- another file after it does not change what is taken of a file of links -/
theorem taken_append {L : Type} {links : List L} {add : Schema.Db → Schema.Db} (h : t ≠ u) :
    taken moment (p ++ [u]) t links add = taken moment p t links add := by
  by_cases hp : t ∈ p
  · simp only [taken, before_of_mem hp, List.mem_append, hp, true_or]
  · have hpu : t ∉ p ++ [u] := by simp [hp, h]
    rw [taken, taken, if_neg fun hc => hpu hc.1, if_neg fun hc => hp hc.1]

theorem taken_nil {L : Type} {links : List L} {add : Schema.Db → Schema.Db} (h : t ∉ p) :
    taken moment p t links add = [] := if_neg fun hc => h hc.1

/-- a file of links that comes next -/
theorem taken_next {L : Type} {links : List L} {add : Schema.Db → Schema.Db} (h : t ∉ p) :
    taken moment (p ++ [t]) t links add = if ForeignKeys (add (parents moment p)) then links else [] := by
  rw [taken, before_append h]
  exact if_congr (and_iff_right (List.mem_append_right p List.mem_cons_self)) rfl rfl

theorem restored_tradesAgents (moment : Table → Db) (p : List Table) : (restored moment p).tradesAgents =
    taken moment p .tradesAgents (moment .tradesAgents).lookup.tradesAgents
      fun db => { db with tradesAgents := (moment .tradesAgents).lookup.tradesAgents } := rfl

theorem restored_agentsDiseases (moment : Table → Db) (p : List Table) : (restored moment p).agentsDiseases =
    taken moment p .agentsDiseases (moment .agentsDiseases).lookup.agentsDiseases
      fun db => { db with agentsDiseases := (moment .agentsDiseases).lookup.agentsDiseases } := rfl

/-- links that are taken refer to rows that are there -/
theorem taken_refers : ForeignKeys (restored moment p) := by
  constructor
  · intro ta hta
    rw [restored_tradesAgents] at hta
    obtain ⟨hmem, hfk⟩ := mem_taken hta
    obtain ⟨ha, -, ht⟩ := parents_mono moment (before_subset .tradesAgents p)
    exact ⟨List.map_subset _ ha (hfk.1 ta hmem).1, List.map_subset _ ht (hfk.1 ta hmem).2⟩
  · intro ad had
    rw [restored_agentsDiseases] at had
    obtain ⟨hmem, hfk⟩ := mem_taken had
    obtain ⟨ha, hd, -⟩ := parents_mono moment (before_subset .agentsDiseases p)
    exact ⟨List.map_subset _ ha (hfk.2 ad hmem).1, List.map_subset _ hd (hfk.2 ad hmem).2⟩

theorem nodup_parents {R : Type} {key : R → ℤ} {rows : List R} (h : (rows.map key).Nodup) (t : Table) :
    ((if t ∈ p then rows else []).map key).Nodup := by
  split_ifs
  · exact h
  · exact List.nodup_nil

theorem keys_restored (h : ∀ t, Inv (moment t)) : Keys (restored moment p) where
  tradesPkey := nodup_parents (h .trades).keys.tradesPkey .trades
  agentsPkey := nodup_parents (h .agents).keys.agentsPkey .agents
  diseasesPkey := nodup_parents (h .diseases).keys.diseasesPkey .diseases
  tradesAgentsPkey := by
    rw [restored_tradesAgents]
    exact (h .tradesAgents).keys.tradesAgentsPkey.sublist (taken_sublist _ _)
  agentsDiseasesPkey := by
    rw [restored_agentsDiseases]
    exact (h .agentsDiseases).keys.agentsDiseasesPkey.sublist (taken_sublist _ _)
  foreign := taken_refers

theorem restored_agentsDiseases_next (moment : Table → Db) (ht : .agentsDiseases ∉ p) :
    restored moment (p ++ [.agentsDiseases]) =
    if ForeignKeys { parents moment p with agentsDiseases := (moment .agentsDiseases).lookup.agentsDiseases }
    then Statements.append (restored moment p) (.agentsDiseases (moment .agentsDiseases).lookup.agentsDiseases)
    else restored moment p := by
  have hnil := restored_agentsDiseases moment p
  have hnext := restored_agentsDiseases moment (p ++ [.agentsDiseases])
  have hrest : restored moment (p ++ [.agentsDiseases]) = { restored moment p with
      agentsDiseases := (restored moment (p ++ [.agentsDiseases])).agentsDiseases } := by
    simp [restored, parents, taken_append]
  rw [taken_nil ht] at hnil
  rw [taken_next ht] at hnext
  rw [hrest, hnext]
  split_ifs
  · rw [Statements.append, hnil, List.nil_append]
  · rw [← hnil]

theorem restored_tradesAgents_next (moment : Table → Db) (ht : .tradesAgents ∉ p) :
    restored moment (p ++ [.tradesAgents]) =
    if ForeignKeys { parents moment p with tradesAgents := (moment .tradesAgents).lookup.tradesAgents }
    then Statements.append (restored moment p) (.tradesAgents (moment .tradesAgents).lookup.tradesAgents)
    else restored moment p := by
  have hnil := restored_tradesAgents moment p
  have hnext := restored_tradesAgents moment (p ++ [.tradesAgents])
  have hrest : restored moment (p ++ [.tradesAgents]) = { restored moment p with
      tradesAgents := (restored moment (p ++ [.tradesAgents])).tradesAgents } := by
    simp [restored, parents, taken_append]
  rw [taken_nil ht] at hnil
  rw [taken_next ht] at hnext
  rw [hrest, hnext]
  split_ifs
  · rw [Statements.append, hnil, List.nil_append]
  · rw [← hnil]

/-! ## One file -/

section
variable (pg : Pg) (loc : DbLocale) {db : Db}

theorem lookup_refused (h : Keys db.lookup) (r : Statements.Rows) (hk : ¬ Keys (Statements.append db.lookup r)) :
    result (exec pg loc db (.lookup r.copy)) = db := by
  cases he : Statements.exec db.lookup r.copy with
  | none => simp only [exec, he, stored, result]
  | some t =>
    obtain ⟨rfl, hkt⟩ := (Statements.insert_iff h r).1 he
    exact absurd hkt hk

theorem lookup_taken (h : Keys db.lookup) (r : Statements.Rows) (hk : Keys (Statements.append db.lookup r)) :
    result (exec pg loc db (.lookup r.copy)) = { db with lookup := Statements.append db.lookup r } := by
  rw [(lookup_ok pg loc h r).2 ⟨rfl, hk⟩]
  rfl

/-- the state once some of the files are in -/
def withFiles (moment : Table → Db) (db : Db) (p : List Table) : Db :=
  { db with
    lookup := restored moment p
    schoolsDaycares := { db.schoolsDaycares with target := restoredSchools moment p } }

theorem file_taken (h : ∀ t, Inv (moment t)) {r : Statements.Rows} {q : List Table}
    (hr : Statements.append (restored moment p) r = restored moment q) :
    result (exec pg loc (withFiles moment db p) (.lookup r.copy)) =
      { withFiles moment db p with lookup := restored moment q } := by
  have hk : Keys (withFiles moment db p).lookup := keys_restored h
  have hk' : Keys (restored moment q) := keys_restored h
  rw [lookup_taken pg loc hk _ (hr ▸ hk'), ← hr]
  rfl

/-- a file whose links refer to rows that are not there -/
theorem file_refused (h : ∀ t, Inv (moment t)) {r : Statements.Rows} {q : List Table}
    (hr : ¬ Keys (Statements.append (restored moment p) r)) (hq : restored moment q = restored moment p) :
    result (exec pg loc (withFiles moment db p) (.lookup r.copy)) =
      { withFiles moment db p with lookup := restored moment q } := by
  have hk : Keys (withFiles moment db p).lookup := keys_restored h
  rw [lookup_refused pg loc hk _ hr, hq]
  rfl

/-- the file of a table that is not there yet -/
theorem restored_step (h : ∀ t, Inv (moment t)) (ht : t ∉ p) (hs : t ≠ .schoolsDaycares) :
    result (exec pg loc (withFiles moment db p) (copyOf (moment t) t)) =
      { withFiles moment db p with lookup := restored moment (p ++ [t]) } := by
  cases t with
  | schoolsDaycares => exact absurd rfl hs
  | agents => exact file_taken pg loc h (by simp [restored, parents, Statements.append, taken_append, ht])
  | diseases => exact file_taken pg loc h (by simp [restored, parents, Statements.append, taken_append, ht])
  | trades => exact file_taken pg loc h (by simp [restored, parents, Statements.append, taken_append, ht])
  | agentsDiseases =>
    have hnext := restored_agentsDiseases_next moment ht
    split_ifs at hnext with hfk
    · exact file_taken pg loc h hnext.symm
    · refine file_refused pg loc h (fun hkeys => ?_) hnext
      refine hfk ⟨fun ta hta => absurd hta List.not_mem_nil, fun ad had => ?_⟩
      exact hkeys.foreign.2 ad (List.mem_append_right _ had)
  | tradesAgents =>
    have hnext := restored_tradesAgents_next moment ht
    split_ifs at hnext with hfk
    · exact file_taken pg loc h hnext.symm
    · refine file_refused pg loc h (fun hkeys => ?_) hnext
      refine hfk ⟨fun ta hta => ?_, fun ad had => absurd had List.not_mem_nil⟩
      exact hkeys.foreign.1 ta (List.mem_append_right _ hta)

theorem schools_step (h : ∀ t, Inv (moment t)) (hs : .schoolsDaycares ∉ p) :
    result (exec pg loc (withFiles moment db p) (copyOf (moment .schoolsDaycares) .schoolsDaycares)) =
      withFiles moment db (p ++ [.schoolsDaycares]) := by
  have hlookup : restored moment (p ++ [.schoolsDaycares]) = restored moment p := by
    simp [restored, parents, taken_append]
  have hnil : restoredSchools moment p = [] := if_neg hs
  have hnext : restoredSchools moment (p ++ [.schoolsDaycares]) =
      (moment .schoolsDaycares).schoolsDaycares.target := if_pos (List.mem_append_right p List.mem_cons_self)
  have hkeys : ((restoredSchools moment p).map SchoolDaycare.identifier).Nodup := by
    rw [hnil]
    exact List.nodup_nil
  have htaken : exec pg loc (withFiles moment db p) (copyOf (moment .schoolsDaycares) .schoolsDaycares) =
      .ok (withFiles moment db (p ++ [.schoolsDaycares])) := by
    refine (copy_ok hkeys).2 ⟨?_, ?_, (h .schoolsDaycares).identified⟩
    · rw [withFiles, withFiles, hlookup, hnext, hnil, List.nil_append]
    · rw [hnil, List.nil_append]
      exact (h .schoolsDaycares).identifiers
  rw [htaken]
  rfl

/-- **What each file adds** -/
theorem file_step (h : ∀ t, Inv (moment t)) (htyped : ∀ t, Typed (moment t)) (ht : t ∉ p) :
    restoreFile pg loc (withFiles moment db p) (t, pgDump (moment t) t) = withFiles moment db (p ++ [t]) := by
  rw [restoreFile, copyFrom_pgDump (htyped t)]
  change result (exec pg loc (withFiles moment db p) (copyOf (moment t) t)) = _
  by_cases hs : t = .schoolsDaycares
  · subst hs
    exact schools_step pg loc h ht
  · have hschools : restoredSchools moment (p ++ [t]) = restoredSchools moment p := by
      simp [restoredSchools, Ne.symm hs]
    rw [restored_step pg loc h ht hs, withFiles, withFiles, hschools]

/-- the files, one after the other -/
theorem files_run (h : ∀ t, Inv (moment t)) (htyped : ∀ t, Typed (moment t)) (hp : p.Nodup) :
    restore pg loc (withFiles moment db []) (files moment p) = withFiles moment db p := by
  induction p using List.reverseRecOn with
  | nil => rfl
  | append_singleton p t ih =>
    have hnodup := List.nodup_append.1 hp
    have ht : t ∉ p := fun hmem => hnodup.2.2 t hmem t (List.mem_singleton.2 rfl) rfl
    have hp' := ih hnodup.1
    rw [restore] at hp' ⊢
    rw [files, List.map_append, run_append, ← files, hp', List.map_singleton, run_cons, run_nil,
      file_step pg loc h htyped ht]

end

end

/-! ## Files of one moment -/

section
variable {db : Db} {q : List Table}

theorem mem_if {R : Type} {t : Table} {rows : List R} {key : R → ℤ} {k : ℤ}
    (h : k ∈ (if t ∈ q then rows else []).map key) : t ∈ q := by
  by_contra ht
  rw [if_neg ht] at h
  cases h

/-- links need the files of both tables that they refer to, when there are any -/
theorem foreign_tradesAgents (h : ForeignKeys db.lookup) :
    ForeignKeys { parents (fun _ => db) q with tradesAgents := db.lookup.tradesAgents } ↔
      db.lookup.tradesAgents = [] ∨ .agents ∈ q ∧ .trades ∈ q := by
  constructor
  · intro hfk
    cases hl : db.lookup.tradesAgents with
    | nil => exact Or.inl rfl
    | cons ta rest =>
      obtain ⟨ha, ht⟩ := hfk.1 ta (hl ▸ List.mem_cons_self)
      exact Or.inr ⟨mem_if ha, mem_if ht⟩
  · intro hor
    refine ⟨fun ta hta => ?_, fun ad had => absurd had List.not_mem_nil⟩
    rcases hor with hnil | ⟨ha, ht⟩
    · exact absurd (hnil ▸ hta) List.not_mem_nil
    · simp only [parents, if_pos ha, if_pos ht]
      exact h.1 ta hta

theorem foreign_agentsDiseases (h : ForeignKeys db.lookup) :
    ForeignKeys { parents (fun _ => db) q with agentsDiseases := db.lookup.agentsDiseases } ↔
      db.lookup.agentsDiseases = [] ∨ .agents ∈ q ∧ .diseases ∈ q := by
  constructor
  · intro hfk
    cases hl : db.lookup.agentsDiseases with
    | nil => exact Or.inl rfl
    | cons ad rest =>
      obtain ⟨ha, hd⟩ := hfk.2 ad (hl ▸ List.mem_cons_self)
      exact Or.inr ⟨mem_if ha, mem_if hd⟩
  · intro hor
    refine ⟨fun ta hta => absurd hta List.not_mem_nil, fun ad had => ?_⟩
    rcases hor with hnil | ⟨ha, hd⟩
    · exact absurd (hnil ▸ had) List.not_mem_nil
    · simp only [parents, if_pos ha, if_pos hd]
      exact h.2 ad had

/-- what comes back when all six files of one moment are run in this order -/
def again (db : Db) (order : List Table) : Db :=
  { db with
    lookup := { db.lookup with
      tradesAgents :=
        if db.lookup.tradesAgents = [] ∨ .agents ∈ before .tradesAgents order ∧ .trades ∈ before .tradesAgents order
        then db.lookup.tradesAgents else []
      agentsDiseases :=
        if db.lookup.agentsDiseases = [] ∨
          .agents ∈ before .agentsDiseases order ∧ .diseases ∈ before .agentsDiseases order
        then db.lookup.agentsDiseases else [] }
    lots := { db.lots with target := [] } }

theorem withFiles_again (h : ForeignKeys db.lookup) {order : List Table} (hall : ∀ t, t ∈ order) :
    withFiles (fun _ => db) (cleared db) order = again db order := by
  simp only [withFiles, restored, restoredSchools, taken, hall, true_and, foreign_tradesAgents h,
    foreign_agentsDiseases h]
  simp only [parents, hall, if_true, cleared, again]

theorem mem_of_perm {order : List Table} (h : order.Perm dumpLookups) (t : Table) : t ∈ order := by
  rw [h.mem_iff]
  cases t <;> decide

/-- in the order in which they were written, nothing is lost -/
theorem again_dumpLookups (db : Db) : again db dumpLookups = { db with lots := { db.lots with target := [] } } := by
  have hta : Table.agents ∈ before .tradesAgents dumpLookups ∧ Table.trades ∈ before .tradesAgents dumpLookups := by
    decide
  have had : Table.agents ∈ before .agentsDiseases dumpLookups ∧
      Table.diseases ∈ before .agentsDiseases dumpLookups := by decide
  rw [again, if_pos (Or.inr hta), if_pos (Or.inr had)]

/-- the files as `*.sql` lists them -/
def alphabetical : List Table := [.agents, .agentsDiseases, .diseases, .schoolsDaycares, .trades, .tradesAgents]

/-- **In alphabetical order, agents and diseases come back without their links**: agents_diseases.sql comes before
diseases.sql. -/
theorem alphabetical_order (db : Db) : (again db alphabetical).lookup = { db.lookup with agentsDiseases := [] } := by
  have hta : Table.agents ∈ before .tradesAgents alphabetical ∧ Table.trades ∈ before .tradesAgents alphabetical := by
    decide
  have had : Table.diseases ∉ before .agentsDiseases alphabetical := by decide
  rw [again, if_pos (Or.inr hta)]
  split_ifs with h
  · rw [h.resolve_right fun hc => had hc.2]
  · rfl

end

/-! ## Dumping and restoring -/

/-- **Files of any moments, in any order.** Each file is written from a state that sessions reach, and some or all of
them are run on a database whose six tables are empty. Then each table has the rows of its file. A file of links is the
exception: it is taken when the files before it bring every row that one of its links refers to, and otherwise refused
as a whole. Nothing else changes. -/
theorem restore_any_order (pg : Pg) (loc : DbLocale) (sessions : Table → List (List (Command Stmt)))
    (moment : Table → Db) (hm : ∀ t, moment t = run (commands pg loc) created (sessions t))
    (htyped : ∀ t, Typed (moment t)) (db : Db) (hlookup : db.lookup = Schema.empty)
    (hschools : db.schoolsDaycares.target = []) (order : List Table) (horder : order.Nodup) :
    restore pg loc db (files moment order) = withFiles moment db order := by
  have hinv : ∀ t, Inv (moment t) := fun t => hm t ▸ reached pg loc (sessions t)
  have hempty : db = withFiles moment db [] :=
    calc db = { db with lookup := Schema.empty, schoolsDaycares := { db.schoolsDaycares with target := [] } } := by
          rw [← hlookup, ← hschools]
      _ = withFiles moment db [] := rfl
  conv_lhs => rw [hempty]
  exact files_run pg loc hinv htyped horder

/-- **Dump, clear, restore.** In every state that sessions reach, DumpLookups, then DeleteLookupData.sql, then the six
files in some order bring back the tables of trades, agents, diseases, schools and daycares as they were. A table of
links comes back iff it was empty or its file comes after the two that it refers to; otherwise it stays empty. In the
order of DumpLookups nothing is missing but the lots. -/
theorem dump_clear_restore (pg : Pg) (loc : DbLocale) (sessions : List (List (Command Stmt))) (db : Db)
    (hdb : db = run (commands pg loc) created sessions) (htyped : Typed db) (order : List Table)
    (horder : order.Perm dumpLookups) :
    restore pg loc (commands pg loc db deleteLookupData) (files (fun _ => db) order) = again db order ∧
    restore pg loc (commands pg loc db deleteLookupData) (files (fun _ => db) dumpLookups) =
      { db with lots := { db.lots with target := [] } } := by
  have hinv : Inv db := hdb ▸ reached pg loc sessions
  have hrun : ∀ p : List Table, p.Perm dumpLookups →
      restore pg loc (commands pg loc db deleteLookupData) (files (fun _ => db) p) = again db p := by
    intro p hp
    have hnodup : p.Nodup := hp.nodup_iff.2 (by decide)
    calc restore pg loc (commands pg loc db deleteLookupData) (files (fun _ => db) p)
        = restore pg loc (withFiles (fun _ => db) (cleared db) []) (files (fun _ => db) p) := by
          rw [deleteLookupData_run]
          rfl
      _ = withFiles (fun _ => db) (cleared db) p := files_run pg loc (fun _ => hinv) (fun _ => htyped) hnodup
      _ = again db p := withFiles_again hinv.keys.foreign (mem_of_perm hp)
  refine ⟨hrun order horder, ?_⟩
  rw [hrun dumpLookups (List.Perm.refl _), again_dumpLookups]

/-! ## One agent and one trade -/

/-- its name has a tab and a backslash in it -/
def trade3 : Trade := ⟨3, some "a\tb\\N", none, none, some (-1), none, some 10, none⟩

def sampleSession : List (Command Stmt) :=
  [ .stmt (.lookup (.write (.agents (.insert [Prevalence.agent9])))),
    .stmt (.lookup (.write (.trades (.insert [trade3])))),
    .stmt (.lookup (.tradesAgents (.insert [⟨1, 3⟩]))) ]

def sampleDb : Db := { created with lookup := ⟨[trade3], [Prevalence.agent9], [], [⟨1, 3⟩], []⟩ }

theorem sampleDb_typed : Typed sampleDb where
  agents := by decide +kernel
  diseases := by decide
  trades := by decide +kernel
  agentsDiseases := by decide
  tradesAgents := by decide +kernel
  schoolsDaycares := by decide

theorem restore_any_order_sample :
    (restore WholePayload.samplePg Views.cLocale created
      (files (fun _ => sampleDb) [.tradesAgents, .agents, .trades])).lookup =
      { sampleDb.lookup with tradesAgents := [] } := by
  rw [restore_any_order WholePayload.samplePg Views.cLocale (fun _ => [sampleSession]) (fun _ => sampleDb)
    (fun _ => rfl) (fun _ => sampleDb_typed) created rfl rfl _ (by decide)]
  decide +kernel

theorem dump_clear_restore_sample :
    restore WholePayload.samplePg Views.cLocale (commands WholePayload.samplePg Views.cLocale sampleDb deleteLookupData)
      (files (fun _ => sampleDb) dumpLookups) = sampleDb :=
  (dump_clear_restore WholePayload.samplePg Views.cLocale [sampleSession] sampleDb rfl sampleDb_typed dumpLookups
    (List.Perm.refl _)).2

end IconSetup.DumpLookups
