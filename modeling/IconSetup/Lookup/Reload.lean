/-
5_Lookup_Data.sql and DeleteLookupData.sql, on any state of the lookup database.

5_Lookup_Data.sql copies eight tables in one block, schools_daycares last. DeleteLookupData.sql clears seven of them:
public_health_units, whose ids are unique, keeps its rows.

When an earlier COPY than the last fails, psql reads the lines of schools_daycares as SQL and loses the COMMIT behind
them, so that the REFRESHes after it are refused with the rest of the block.

- `keys_between`: the keys hold after each COPY when they hold before the first and after the last.
- `copies_fits`, `fits_of_copies`: the COPYs before the last succeed iff the stored rows and the new ones together satisfy
  the keys of their tables (`FitsLookups`), and so does the last, for `Fits`.
- `reload_exact`: 5_Lookup_Data.sql adds exactly its rows, or none, and when it refreshes the two indexes.
- `clear_and_reload`: after DeleteLookupData.sql it adds them iff a new database takes them and none of its
  public_health_units is stored already; otherwise the seven tables stay empty.
- `reload_refused`: with the same file once more, they stay empty.
-/
import Mathlib.Tactic
import IconSetup.Core.Run
import IconSetup.Core.Dml
import IconSetup.Core.Query
import IconSetup.Core.Session
import IconSetup.Core.Psql
import IconSetup.Lookup.Schema
import IconSetup.Lookup.Views
import IconSetup.Lookup.Statements
import IconSetup.Lookup.LookupData
import IconSetup.Load.Loaders
import IconSetup.Load.WholePayload

namespace IconSetup.Reload

open IconSetup.Run IconSetup.Query IconSetup.Session IconSetup.LookupData
open IconSetup.Dml (insertRows_eq insertRows_keys insertRows_iff)
open IconSetup.Schema (Keys)
open IconSetup.Views (DbLocale)
open IconSetup.Loaders (Pg Lot SchoolDaycare schoolView)

/-! ## The keys during a load -/

/-- between two states with sound keys: each table is one of the two, and the new links come after the new rows -/
theorem keys_between {a b c : Schema.Db} (ha : Keys a) (hc : Keys c)
    (hsub : a.trades ⊆ c.trades ∧ a.agents ⊆ c.agents ∧ a.diseases ⊆ c.diseases)
    (ht : b.trades = a.trades ∨ b.trades = c.trades) (hg : b.agents = a.agents ∨ b.agents = c.agents)
    (hd : b.diseases = a.diseases ∨ b.diseases = c.diseases)
    (hta : b.tradesAgents = a.tradesAgents ∨ b.tradesAgents = c.tradesAgents ∧ b.agents = c.agents ∧ b.trades = c.trades)
    (had : b.agentsDiseases = a.agentsDiseases ∨
      b.agentsDiseases = c.agentsDiseases ∧ b.agents = c.agents ∧ b.diseases = c.diseases) : Keys b := by
  obtain ⟨hst, hsa, hsd⟩ := hsub
  -- the rows of the old state are still there
  have htb : a.trades ⊆ b.trades := by
    rcases ht with ht | ht <;> rw [ht]
    exacts [List.Subset.refl _, hst]
  have hgb : a.agents ⊆ b.agents := by
    rcases hg with hg | hg <;> rw [hg]
    exacts [List.Subset.refl _, hsa]
  have hdb : a.diseases ⊆ b.diseases := by
    rcases hd with hd | hd <;> rw [hd]
    exacts [List.Subset.refl _, hsd]
  refine ⟨?_, ?_, ?_, ?_, ?_, fun x hx => ?_, fun x hx => ?_⟩
  · rcases ht with ht | ht <;> rw [ht]
    exacts [ha.tradesPkey, hc.tradesPkey]
  · rcases hg with hg | hg <;> rw [hg]
    exacts [ha.agentsPkey, hc.agentsPkey]
  · rcases hd with hd | hd <;> rw [hd]
    exacts [ha.diseasesPkey, hc.diseasesPkey]
  · rcases hta with hta | ⟨hta, -, -⟩ <;> rw [hta]
    exacts [ha.tradesAgentsPkey, hc.tradesAgentsPkey]
  · rcases had with had | ⟨had, -, -⟩ <;> rw [had]
    exacts [ha.agentsDiseasesPkey, hc.agentsDiseasesPkey]
  · rcases hta with hta | ⟨hta, hga, htr⟩
    · rw [hta] at hx
      obtain ⟨h1, h2⟩ := ha.foreign.1 x hx
      exact ⟨List.map_subset _ hgb h1, List.map_subset _ htb h2⟩
    · rw [hta] at hx
      rw [hga, htr]
      exact hc.foreign.1 x hx
  · rcases had with had | ⟨had, hga, hdi⟩
    · rw [had] at hx
      obtain ⟨h1, h2⟩ := ha.foreign.2 x hx
      exact ⟨List.map_subset _ hgb h1, List.map_subset _ hdb h2⟩
    · rw [had] at hx
      rw [hga, hdi]
      exact hc.foreign.2 x hx

/-- the five tables with the rows of the file -/
def appended (t : Schema.Db) (rows : Rows) : Schema.Db where
  trades := t.trades ++ rows.trades
  agents := t.agents ++ rows.agents
  diseases := t.diseases ++ rows.diseases
  tradesAgents := t.tradesAgents ++ rows.tradesAgents
  agentsDiseases := t.agentsDiseases ++ rows.agentsDiseases

/-- what is stored and what the file holds satisfy the keys together, in all tables but schools_daycares -/
structure FitsLookups (db : Db) (rows : Rows) : Prop where
  keys : Keys (appended db.lookup rows)
  publicHealthUnits : ((db.publicHealthUnits ++ rows.publicHealthUnits).map PublicHealthUnit.id).Nodup
  lots : ((db.lots.target ++ rows.lots).map Lot.lotId).Nodup

/-- and in all tables -/
structure Fits (db : Db) (rows : Rows) : Prop extends FitsLookups db rows where
  identifiers : ((db.schoolsDaycares.target ++ rows.schoolsDaycares).map SchoolDaycare.identifier).Nodup
  identified : ∀ r ∈ rows.schoolsDaycares, r.identifier.isSome = true

/-- the tables before the COPY of schools_daycares -/
def loadedLookups (db : Db) (rows : Rows) : Db :=
  { db with
    lookup := appended db.lookup rows
    publicHealthUnits := db.publicHealthUnits ++ rows.publicHealthUnits
    lots := { db.lots with target := db.lots.target ++ rows.lots, sequence := 1783 } }

/-- the tables with all rows of the file -/
def loaded (db : Db) (rows : Rows) : Db :=
  { loadedLookups db rows with
    schoolsDaycares :=
      { db.schoolsDaycares with target := db.schoolsDaycares.target ++ rows.schoolsDaycares } }

/-! ## The COPYs -/

theorem stored_ok {α : Type} {db db' : Db} {put : α → Db} {o : Option α} :
    stored db put o = .ok db' ↔ ∃ rows, o = some rows ∧ db' = put rows := by
  cases o with
  | none => simp [stored]
  | some rows => simp [stored, eq_comm]

theorem stored_error {α : Type} {db left : Db} {put : α → Db} {o : Option α} (h : stored db put o = .error left) :
    left = db := by
  cases o with
  | none => exact (Except.error.inj h).symm
  | some rows => cases h

section
variable (pg : Pg) (loc : DbLocale) {db db' : Db} {rows : Rows} {lines : Inline}

theorem lookup_ok (h : Keys db.lookup) (r : Statements.Rows) : exec pg loc db (.lookup r.copy) = .ok db' ↔
    db' = { db with lookup := Statements.append db.lookup r } ∧ Keys (Statements.append db.lookup r) := by
  simp only [exec, stored_ok, Statements.insert_iff h r]
  constructor
  · rintro ⟨_, ⟨rfl, hk⟩, rfl⟩
    exact ⟨rfl, hk⟩
  · rintro ⟨rfl, hk⟩
    exact ⟨_, ⟨rfl, hk⟩, rfl⟩

/-- a COPY into a table that only has its key to check -/
theorem copy_ok {R K : Type} [DecidableEq K] {key : R → K} {ok : R → Bool} {tab new : List R} {put : List R → Db}
    (hk : (tab.map key).Nodup) : stored db put (Dml.exec key ok tab (.copy new)) = .ok db' ↔
      db' = put (tab ++ new) ∧ ((tab ++ new).map key).Nodup ∧ ∀ r ∈ new, ok r = true := by
  rw [stored_ok]
  constructor
  · rintro ⟨_, h, rfl⟩
    obtain ⟨rfl, hok⟩ := insertRows_eq key ok tab new _ h
    exact ⟨rfl, insertRows_keys key ok tab new _ hk h, hok⟩
  · rintro ⟨rfl, hn, hok⟩
    obtain ⟨tab', h⟩ := (insertRows_iff key ok tab new hk).2 ⟨hok, hn⟩
    obtain ⟨rfl, -⟩ := insertRows_eq key ok tab new tab' h
    exact ⟨_, h, rfl⟩

theorem setval_ok (db : Db) : exec pg loc db (.setvalLots 1783) =
    .ok { db with lots := { db.lots with sequence := 1783 } } := by
  simp only [exec]
  exact if_pos (by norm_num)

/-- the COPYs of a file that fits are accepted, one after the other -/
theorem copies_fits (h : Inv db) (hf : FitsLookups db rows) :
    execAll (exec pg loc) db ((copies rows lines).map Prod.fst) = .ok (loadedLookups db rows) := by
  have hsub : db.lookup.trades ⊆ (appended db.lookup rows).trades ∧
      db.lookup.agents ⊆ (appended db.lookup rows).agents ∧ db.lookup.diseases ⊆ (appended db.lookup rows).diseases :=
    ⟨List.subset_append_left _ _, List.subset_append_left _ _, List.subset_append_left _ _⟩
  have hbetween := @keys_between db.lookup
  -- the tables after each COPY of the five
  let t1 := Statements.append db.lookup (.agents rows.agents)
  let t2 := Statements.append t1 (.diseases rows.diseases)
  let t3 := Statements.append t2 (.trades rows.trades)
  let t4 := Statements.append t3 (.agentsDiseases rows.agentsDiseases)
  let t5 := Statements.append t4 (.tradesAgents rows.tradesAgents)
  have h1 : Keys t1 := hbetween h.keys hf.keys hsub (.inl rfl) (.inr rfl) (.inl rfl) (.inl rfl) (.inl rfl)
  have h2 : Keys t2 := hbetween h.keys hf.keys hsub (.inl rfl) (.inr rfl) (.inr rfl) (.inl rfl) (.inl rfl)
  have h3 : Keys t3 := hbetween h.keys hf.keys hsub (.inr rfl) (.inr rfl) (.inr rfl) (.inl rfl) (.inl rfl)
  have h4 : Keys t4 :=
    hbetween h.keys hf.keys hsub (.inr rfl) (.inr rfl) (.inr rfl) (.inl rfl) (.inr ⟨rfl, rfl, rfl⟩)
  have h5 : Keys t5 := hf.keys
  simp only [copies, List.map_cons, List.map_nil, execAll_cons, execAll_nil, bind_ok]
  refine ⟨_, (lookup_ok pg loc h.keys (.agents rows.agents)).2 ⟨rfl, h1⟩, ?_⟩
  refine ⟨_, (lookup_ok pg loc h1 (.diseases rows.diseases)).2 ⟨rfl, h2⟩, ?_⟩
  refine ⟨_, (lookup_ok pg loc h2 (.trades rows.trades)).2 ⟨rfl, h3⟩, ?_⟩
  refine ⟨_, (copy_ok h.publicHealthUnits).2 ⟨rfl, hf.publicHealthUnits, fun _ _ => rfl⟩, ?_⟩
  refine ⟨_, (lookup_ok pg loc h3 (.agentsDiseases rows.agentsDiseases)).2 ⟨rfl, h4⟩, ?_⟩
  refine ⟨_, (lookup_ok pg loc h4 (.tradesAgents rows.tradesAgents)).2 ⟨rfl, h5⟩, ?_⟩
  refine ⟨_, (copy_ok h.lots).2 ⟨rfl, hf.lots, fun _ _ => rfl⟩, ?_⟩
  exact ⟨_, setval_ok pg loc _, rfl⟩

/-- COPYs that are all accepted are those of a file that fits -/
theorem fits_of_copies (h : Inv db) (hc : execAll (exec pg loc) db ((copies rows lines).map Prod.fst) = .ok db') :
    FitsLookups db rows := by
  simp only [copies, List.map_cons, List.map_nil, execAll_cons, execAll_nil, bind_ok] at hc
  obtain ⟨_, hc1, _, hc2, _, hc3, _, hc4, _, hc5, _, hc6, _, hc7, -⟩ := hc
  obtain ⟨rfl, h1⟩ := (lookup_ok pg loc h.keys (.agents rows.agents)).1 hc1
  obtain ⟨rfl, h2⟩ := (lookup_ok pg loc h1 (.diseases rows.diseases)).1 hc2
  obtain ⟨rfl, h3⟩ := (lookup_ok pg loc h2 (.trades rows.trades)).1 hc3
  obtain ⟨rfl, hphu, -⟩ := (copy_ok h.publicHealthUnits).1 hc4
  obtain ⟨rfl, h5⟩ := (lookup_ok pg loc h3 (.agentsDiseases rows.agentsDiseases)).1 hc5
  obtain ⟨rfl, h6⟩ := (lookup_ok pg loc h5 (.tradesAgents rows.tradesAgents)).1 hc6
  obtain ⟨rfl, hlots, -⟩ := (copy_ok h.lots).1 hc7
  exact ⟨h6, hphu, hlots⟩

/-- the last COPY, behind the others -/
theorem schools_ok (h : Inv db) (hf : FitsLookups db rows) :
    exec pg loc (loadedLookups db rows) (.schoolsDaycares (.copy rows.schoolsDaycares)) = .ok db' ↔
      db' = loaded db rows ∧ Fits db rows := by
  refine (copy_ok h.identifiers).trans (and_congr_right fun _ => ?_)
  exact ⟨fun hs => ⟨hf, hs.1, hs.2⟩, fun hs => ⟨hs.identifiers, hs.identified⟩⟩

/-! ## The scripts -/

theorem stored_sequence {α : Type} (d : Db) (put : α → Db) (o : Option α)
    (hput : ∀ rows, (put rows).lots.sequence = d.lots.sequence) :
    (result (stored d put o)).lots.sequence = d.lots.sequence := by
  cases o with
  | none => rfl
  | some rows => exact hput rows

/-- where one of them fails, nothing is left of the block: setval only comes after them -/
theorem copies_error {left : Db} (he : execAll (exec pg loc) db ((copies rows lines).map Prod.fst) = .error left) :
    undo db left = db := by
  -- the COPYs, and setval, which does not fail
  have hcopies : (copies rows lines).map Prod.fst =
      ((copies rows lines).map Prod.fst).take 7 ++ [.setvalLots 1783] := rfl
  have hkeeps : ∀ s ∈ ((copies rows lines).map Prod.fst).take 7, ∀ d : Db, d.lots.sequence = db.lots.sequence →
      (result (exec pg loc d s)).lots.sequence = db.lots.sequence := by
    intro s hs d hd
    simp only [copies, List.map_cons, List.take_succ_cons, List.take_zero, List.mem_cons, List.not_mem_nil,
      or_false] at hs
    rcases hs with rfl | rfl | rfl | rfl | rfl | rfl | rfl
    all_goals
      simp only [exec]
      rw [stored_sequence]
      · exact hd
      · exact fun _ => rfl
  have hleft := execAll_keeps (exec pg loc) hkeeps rfl
  rw [hcopies, execAll_append] at he
  cases hc : execAll (exec pg loc) db (((copies rows lines).map Prod.fst).take 7) with
  | ok d =>
    rw [hc] at he
    have hset : execAll (exec pg loc) d [.setvalLots 1783] =
        .ok { d with lots := { d.lots with sequence := 1783 } } := by
      rw [execAll_cons, setval_ok]
      rfl
    exact absurd (hset.symm.trans he) (by simp)
  | error d =>
    rw [hc] at he hleft
    cases he
    exact congrArg (fun seq => { db with lots := { db.lots with sequence := seq } }) hleft

/-- what schools_daycares_index shows of a school: name, address and city in title case, postal code in upper case -/
def schoolShown (r : SchoolDaycare) : SchoolDaycare where
  identifier := r.identifier
  phu := r.phu
  orgType := r.orgType
  name := r.name.map pg.initcap
  address := r.address.map pg.initcap
  postalCode := r.postalCode.map pg.upper
  city := r.city.map pg.initcap

/-- the two refreshes; the second does nothing until geocodes_index is populated -/
def refreshed (db : Db) : Db :=
  { db with
    schoolsDaycares := { db.schoolsDaycares with index := some (db.schoolsDaycares.target.map (schoolShown pg)) }
    citiesIndex :=
      match db.geocodesIndex with
      | none => db.citiesIndex
      | some rows => some (orderBy (nullsLast loc.le) (rows.map fun r => r.city.map pg.initcap).dedup) }

theorem refreshes (db : Db) : run (fun db s => result (exec pg loc db s)) db
    [.refreshSchoolsDaycaresIndex, .refreshCitiesIndex] = refreshed pg loc db := by
  have hview : schoolView pg = schoolShown pg := rfl
  simp only [run_cons, run_nil, exec, result, refreshed, hview]
  cases db.geocodesIndex <;> rfl

variable (psql : Psql.Scanner Stmt)

theorem fits_run (h : Inv db) (hf : Fits db rows) :
    psqlFile pg loc psql db (lookupData rows lines) = refreshed pg loc (loaded db rows) := by
  have hlast := (schools_ok pg loc h hf.toFitsLookups).2 ⟨rfl, hf⟩
  rw [psqlFile, lookupData, Psql.file_block psql _ _ (copies_fits pg loc h hf.toFitsLookups) hlast, refreshes]

/-- only the last COPY fails -/
theorem last_run (h : Inv db) (hl : FitsLookups db rows) (hf : ¬ Fits db rows) :
    psqlFile pg loc psql db (lookupData rows lines) =
      refreshed pg loc { db with lots := { db.lots with sequence := 1783 } } := by
  cases hlast : exec pg loc (loadedLookups db rows) (.schoolsDaycares (.copy rows.schoolsDaycares)) with
  | ok d => exact absurd ((schools_ok pg loc h hl).1 hlast).2 hf
  | error left =>
    have hleft : left = loadedLookups db rows := stored_error hlast
    have hundo : undo db left = { db with lots := { db.lots with sequence := 1783 } } := by
      rw [hleft]
      rfl
    rw [psqlFile, lookupData, Psql.file_last psql _ _ (copies_fits pg loc h hl) hlast, refreshes, hundo]

/-- once the COPYs before the last are accepted, psql gets to the REFRESHes -/
theorem refreshed_run (h : Inv db) (hl : FitsLookups db rows) : ∃ db',
    psqlFile pg loc psql db (lookupData rows lines) = refreshed pg loc db' ∧
      db'.geocodesIndex = db.geocodesIndex ∧ db'.citiesIndex = db.citiesIndex := by
  by_cases hf : Fits db rows
  · exact ⟨loaded db rows, fits_run pg loc psql h hf, rfl, rfl⟩
  · exact ⟨_, last_run pg loc psql h hl hf, rfl, rfl⟩

/-- an earlier one fails -/
theorem unfit_run (h : Inv db) (hl : ¬ FitsLookups db rows) :
    (psqlFile pg loc psql db (lookupData rows lines) = db ∨
      psqlFile pg loc psql db (lookupData rows lines) = refreshed pg loc db) ∧
    (lines.schoolsDaycares.pending = true → psqlFile pg loc psql db (lookupData rows lines) = db) := by
  cases hc : execAll (exec pg loc) db ((copies rows lines).map Prod.fst) with
  | ok d => exact absurd (fits_of_copies pg loc h hc) hl
  | error left =>
    have hundo := copies_error pg loc hc
    refine ⟨?_, fun hpending => (Psql.file_lost psql _ _ hc hpending).trans hundo⟩
    rcases Psql.file_error psql _ _ hc with he | he
    · exact Or.inl (he.trans hundo)
    · exact Or.inr (he.trans (by rw [refreshes, hundo]))

/-- the seven tables are empty -/
def cleared (db : Db) : Db :=
  { db with
    lookup := Schema.empty
    lots := { db.lots with target := [] }
    schoolsDaycares := { db.schoolsDaycares with target := [] } }

theorem deleteLookupData_run (db : Db) : commands pg loc db deleteLookupData = cleared db := by
  rw [commands, deleteLookupData, idle_run]
  simp only [deletions, run_cons, run_nil, exec, Statements.exec, stored, result, close, Statements.delete,
    Cascade.delete, Cascade.cascade, Bool.not_true, List.filter_false, List.filter_nil, cleared, Schema.empty]

/-- what the cleared database takes: what a new one does, less the public health units that are still there -/
theorem fitsLookups_cleared (h : Inv db) : FitsLookups (cleared db) rows ↔
    FitsLookups created rows ∧ ∀ p ∈ rows.publicHealthUnits, p.id ∉ db.publicHealthUnits.map PublicHealthUnit.id := by
  constructor
  · intro hf
    have hphu := hf.publicHealthUnits
    simp only [List.map_append, List.nodup_append] at hphu
    refine ⟨⟨hf.keys, hphu.2.1, hf.lots⟩, fun p hp hmem => ?_⟩
    exact hphu.2.2 _ hmem _ (List.mem_map_of_mem hp) rfl
  · intro ⟨hf, hnew⟩
    refine ⟨hf.keys, ?_, hf.lots⟩
    rw [List.map_append, List.nodup_append]
    refine ⟨h.publicHealthUnits, hf.publicHealthUnits, fun x hx y hy he => ?_⟩
    obtain ⟨p, hp, rfl⟩ := List.mem_map.1 hy
    exact hnew p hp (he ▸ hx)

theorem fits_cleared (h : Inv db) : Fits (cleared db) rows ↔
    Fits created rows ∧ ∀ p ∈ rows.publicHealthUnits, p.id ∉ db.publicHealthUnits.map PublicHealthUnit.id := by
  constructor
  · intro hf
    obtain ⟨hl, hnew⟩ := (fitsLookups_cleared h).1 hf.toFitsLookups
    exact ⟨⟨hl, hf.identifiers, hf.identified⟩, hnew⟩
  · intro ⟨hf, hnew⟩
    exact ⟨(fitsLookups_cleared h).2 ⟨hf.toFitsLookups, hnew⟩, hf.identifiers, hf.identified⟩

end

/-! ## Loading and clearing -/

section
variable (pg : Pg) (loc : DbLocale) (psql : Psql.Scanner Stmt) (sessions : List (List (Command Stmt))) (rows : Rows)
  (lines : Inline) (db : Db)

/-- **5_Lookup_Data.sql is all or nothing.** In every state that sessions reach, it adds exactly its rows when they and
the stored ones together satisfy every key, and refreshes the indexes: schools_daycares_index, and cities_index if
geocodes_index is populated. Otherwise no table changes. If only the last COPY fails, the indexes are refreshed all the
same, and the sequence is set. If an earlier one fails, the indexes stay as they were, since psql loses the COMMIT behind
the pending lines of schools_daycares, and the sequence stays too. -/
theorem reload_exact (hdb : db = run (commands pg loc) created sessions) :
    (Fits db rows → psqlFile pg loc psql db (lookupData rows lines) = refreshed pg loc (loaded db rows)) ∧
    (FitsLookups db rows → ¬ Fits db rows → psqlFile pg loc psql db (lookupData rows lines) =
      refreshed pg loc { db with lots := { db.lots with sequence := 1783 } }) ∧
    (¬ FitsLookups db rows →
      (psqlFile pg loc psql db (lookupData rows lines) = db ∨
        psqlFile pg loc psql db (lookupData rows lines) = refreshed pg loc db) ∧
      (lines.schoolsDaycares.pending = true → psqlFile pg loc psql db (lookupData rows lines) = db)) := by
  have h : Inv db := hdb ▸ reached pg loc sessions
  exact ⟨fits_run pg loc psql h, last_run pg loc psql h, unfit_run pg loc psql h⟩

/-- **Clear and reload.** In every state that sessions reach, DeleteLookupData.sql empties its seven tables and touches
nothing else. 5_Lookup_Data.sql then loads exactly when a new database would take its rows and no id of its
public_health_units is stored; the tables then hold its rows and nothing else. Otherwise the seven tables stay empty, and
if such an id is why, the indexes still show what was deleted. -/
theorem clear_and_reload (hdb : db = run (commands pg loc) created sessions) :
    commands pg loc db deleteLookupData = cleared db ∧
    (Fits created rows ∧ (∀ p ∈ rows.publicHealthUnits, p.id ∉ db.publicHealthUnits.map PublicHealthUnit.id) →
      psqlFile pg loc psql (commands pg loc db deleteLookupData) (lookupData rows lines) =
        refreshed pg loc (loaded (cleared db) rows)) ∧
    (¬ (Fits created rows ∧ ∀ p ∈ rows.publicHealthUnits, p.id ∉ db.publicHealthUnits.map PublicHealthUnit.id) →
      ∃ seq, psqlFile pg loc psql (commands pg loc db deleteLookupData) (lookupData rows lines) =
          { cleared db with lots := { (cleared db).lots with sequence := seq } } ∨
        psqlFile pg loc psql (commands pg loc db deleteLookupData) (lookupData rows lines) =
          refreshed pg loc { cleared db with lots := { (cleared db).lots with sequence := seq } }) ∧
    ((∃ p ∈ rows.publicHealthUnits, p.id ∈ db.publicHealthUnits.map PublicHealthUnit.id) →
      lines.schoolsDaycares.pending = true →
      psqlFile pg loc psql (commands pg loc db deleteLookupData) (lookupData rows lines) = cleared db) := by
  have h : Inv db := hdb ▸ reached pg loc sessions
  have hcleared := deleteLookupData_run pg loc db
  have hi : Inv (cleared db) := hcleared ▸ commands_inv pg loc h deleteLookupData
  rw [hcleared, ← fits_cleared h]
  refine ⟨rfl, fits_run pg loc psql hi, fun hf => ?_, fun hunit => ?_⟩
  · by_cases hl : FitsLookups (cleared db) rows
    · exact ⟨1783, Or.inr (last_run pg loc psql hi hl hf)⟩
    · exact ⟨db.lots.sequence, (unfit_run pg loc psql hi hl).1⟩
  · obtain ⟨p, hp, hstored⟩ := hunit
    exact (unfit_run pg loc psql hi fun hl => ((fitsLookups_cleared h).1 hl).2 p hp hstored).2

end

/-! ## A file of one agent and one public health unit -/

def unit1 : PublicHealthUnit := ⟨1, some "Toronto Public Health", some "TO", some "1.0"⟩

def sampleRows : Rows := ⟨[Prevalence.agent9], [], [], [unit1], [], [], [], []⟩

theorem sampleRows_fits : Fits created sampleRows where
  keys := ⟨by decide, by decide, by decide, by decide, by decide, by decide⟩
  publicHealthUnits := by decide
  lots := List.nodup_nil
  identifiers := List.nodup_nil
  identified := fun _ hr => absurd hr List.not_mem_nil

/-- no lines -/
def noLines : Psql.Lines := ⟨[], rfl⟩

/-- the first line of schools_daycares, up to its second column -/
def schoolLines : Psql.Lines := ⟨["EO-713\tEastern Ontario Health Unit".toList], by decide⟩

def sampleLines : Inline := ⟨noLines, noLines, noLines, noLines, noLines, noLines, noLines, schoolLines⟩

/-- once it reads lines as SQL, it reads all that follows as one command -/
def samplePsql : Psql.Scanner Stmt where
  lost := fun items => !items.isEmpty
  lost_nil := rfl
  lost_lines := fun items s lines _ => by simp

theorem reload_exact_sample :
    psqlFile WholePayload.samplePg Views.cLocale samplePsql created (lookupData sampleRows sampleLines) =
      refreshed WholePayload.samplePg Views.cLocale (loaded created sampleRows) :=
  (reload_exact WholePayload.samplePg Views.cLocale samplePsql [] sampleRows sampleLines created rfl).1 sampleRows_fits

/-- **The same file twice.** Loaded into a new database, cleared and loaded again: the unit is still there, so the agent
is not loaded, and nothing changes. -/
theorem reload_refused :
    psqlFile WholePayload.samplePg Views.cLocale samplePsql
        (commands WholePayload.samplePg Views.cLocale
          (psqlFile WholePayload.samplePg Views.cLocale samplePsql created (lookupData sampleRows sampleLines))
          deleteLookupData)
        (lookupData sampleRows sampleLines) =
      cleared
        (psqlFile WholePayload.samplePg Views.cLocale samplePsql created (lookupData sampleRows sampleLines)) := by
  obtain ⟨cs, -, hcs⟩ := psqlFile_commands WholePayload.samplePg Views.cLocale samplePsql created
    (lookupData sampleRows sampleLines)
  have hloaded : psqlFile WholePayload.samplePg Views.cLocale samplePsql created (lookupData sampleRows sampleLines) =
      refreshed WholePayload.samplePg Views.cLocale (loaded created sampleRows) :=
    fits_run WholePayload.samplePg Views.cLocale samplePsql inv_created sampleRows_fits
  refine (clear_and_reload WholePayload.samplePg Views.cLocale samplePsql [cs] sampleRows sampleLines _ hcs).2.2.2
    ⟨unit1, List.mem_cons_self, ?_⟩ (by decide)
  rw [hloaded]
  exact List.mem_cons_self

end IconSetup.Reload
