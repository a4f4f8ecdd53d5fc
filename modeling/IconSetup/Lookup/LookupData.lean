/-
The stored data of the lookup database, and the scripts that fill and clear it: 5_Lookup_Data.sql, DeleteLookupData.sql
and DeleteGeocodeData.sql, as the commands that psql reads. The rows that 5_Lookup_Data.sql copies are a parameter, each
of the types of its columns, and so are the lines that hold them; its SET lines and the name of its client encoding touch
no data and are left out.

5_Lookup_Data.sql is one transaction block and two refreshes after it. setval, and the numbers that a load takes, are not
undone with the rest.

- `exec`: every statement on the data, single rows and loads included.
- `psqlFile`: what `psql -f` does with a script; `psqlFile_map`, `psqlFile_commands`: it is what the script's commands do,
  or some of them.
- `Inv`: the keys of all tables; nothing is staged; and cities_index is never populated before geocodes_index is.
- `exec_inv`, `reached`: it holds after any commands of any script or application, in a block or not.
-/
import Mathlib.Tactic
import IconSetup.Core.Run
import IconSetup.Core.Dml
import IconSetup.Core.Query
import IconSetup.Core.Session
import IconSetup.Core.Psql
import IconSetup.Lookup.Schema
import IconSetup.Lookup.Views
import IconSetup.Lookup.Statements
import IconSetup.Load.Loaders
import IconSetup.Load.WholePayload

namespace IconSetup.LookupData

open IconSetup.Run IconSetup.Dml IconSetup.Query IconSetup.Schema IconSetup.Session
open IconSetup.Views (DbLocale)
open IconSetup.Loaders (Pg Lot SchoolDaycare loadLots loadSchoolsDaycares schoolView)

/-! ## Tables and materialized views -/

/-- a row of public_health_units -/
structure PublicHealthUnit where
  id : Int16
  name : Option String
  acronym : Option String
  appVersion : Option String
deriving DecidableEq, Repr

/-- a row of geocodes; a double is only copied, and stands here as its bits -/
structure Geocode where
  postalCode : Option String
  city : Option String
  province : Option String
  provinceAbbr : Option String
  latitude : Option (BitVec 64)
  longitude : Option (BitVec 64)
  streetName : Option String
  streetType : Option String
  streetDir : Option String
  streetFromNo : Option ℤ
  streetToNo : Option ℤ
  ruralRoute : Option String
  country : Option String
  streetTypeFull : Option String
  streetDirFull : Option String
deriving DecidableEq, Repr

/-- a row of geocodes_index -/
structure GeocodeIndexRow where
  postalCode : Option String
  city : Option String
  province : Option String
  provinceAbbr : Option String
  latitude : Option (BitVec 64)
  longitude : Option (BitVec 64)
  streetName : Option String
  streetTypeAbbr : Option String
  streetDirAbbr : Option String
  streetFromNo : Option ℤ
  streetToNo : Option ℤ
  ruralRoute : Option String
  country : Option String
  streetType : Option String
  streetDir : Option String
deriving DecidableEq, Repr

structure Db where
  lookup : Schema.Db
  publicHealthUnits : List PublicHealthUnit
  /-- lots, lots_bak, load_lots, and the sequence of lot_id -/
  lots : Loaders.Db Lot Unit
  /-- schools_daycares, its backup, load_schools_daycares, and schools_daycares_index -/
  schoolsDaycares : Loaders.Db SchoolDaycare SchoolDaycare
  geocodes : List Geocode
  /-- the materialized views are created WITH NO DATA -/
  geocodesIndex : Option (List GeocodeIndexRow)
  citiesIndex : Option (List (Option String))

/-- the tables as 2_Create_Lookup_DB.sql leaves them -/
def created : Db where
  lookup := Schema.empty
  publicHealthUnits := []
  lots := ⟨[], none, [], 0, none⟩
  schoolsDaycares := ⟨[], none, [], 0, none⟩
  geocodes := []
  geocodesIndex := none
  citiesIndex := none

section
variable (pg : Pg) (loc : DbLocale)

/-- the SELECT of geocodes_index -/
def geocodeView (g : Geocode) : GeocodeIndexRow where
  postalCode := g.postalCode.map pg.upper
  city := g.city.map pg.initcap
  province := g.province.map pg.initcap
  provinceAbbr := g.provinceAbbr
  latitude := g.latitude
  longitude := g.longitude
  streetName := g.streetName.map pg.initcap
  streetTypeAbbr := g.streetType
  streetDirAbbr := g.streetDir
  streetFromNo := g.streetFromNo
  streetToNo := g.streetToNo
  ruralRoute := g.ruralRoute
  country := g.country
  streetType := g.streetTypeFull
  streetDir := g.streetDirFull

/-- `SELECT DISTINCT initcap(geocodes_index.city) AS city FROM geocodes_index ORDER BY (initcap(geocodes_index.city))` -/
def cities (rows : List GeocodeIndexRow) : List (Option String) :=
  orderBy (nullsLast loc.le) (rows.map fun r => r.city.map pg.initcap).dedup

/-! ## Statements -/

inductive Stmt where
  | lookup (o : Statements.Op)
  | publicHealthUnits (d : Dml.Stmt PublicHealthUnit)
  | deletePublicHealthUnits (cond : PublicHealthUnit → Bool)
  | lots (d : Dml.Stmt Lot)
  | deleteLots (cond : Lot → Bool)
  /-- `setval('lots_lot_id_seq', n, true)` -/
  | setvalLots (n : ℤ)
  /-- INSERT into load_lots, and its trigger -/
  | loadLots (texts : List String)
  | schoolsDaycares (d : Dml.Stmt SchoolDaycare)
  | deleteSchoolsDaycares (cond : SchoolDaycare → Bool)
  | loadSchoolsDaycares (texts : List String)
  /-- any statement on geocodes, which has no constraint -/
  | geocodes (f : List Geocode → List Geocode)
  | refreshSchoolsDaycaresIndex
  | refreshGeocodesIndex
  | refreshCitiesIndex

/-- a statement on one table: its rows afterwards, or a constraint that refuses it -/
def stored {α : Type} (db : Db) (put : α → Db) : Option α → Except Db Db
  | none => .error db
  | some rows => .ok (put rows)

def exec (db : Db) : Stmt → Except Db Db
  | .lookup o => stored db (fun t => { db with lookup := t }) (Statements.exec db.lookup o)
  | .publicHealthUnits d =>
    -- id smallint NOT NULL UNIQUE
    stored db (fun t => { db with publicHealthUnits := t })
      (Dml.exec PublicHealthUnit.id (fun _ => true) db.publicHealthUnits d)
  | .deletePublicHealthUnits cond => .ok { db with publicHealthUnits := db.publicHealthUnits.filter (!cond ·) }
  | .lots d =>
    stored db (fun t => { db with lots := { db.lots with target := t } })
      (Dml.exec Lot.lotId (fun _ => true) db.lots.target d)
  | .deleteLots cond => .ok { db with lots := { db.lots with target := db.lots.target.filter (!cond ·) } }
  | .setvalLots n =>
    if 1 ≤ n ∧ n < 2 ^ 63 then .ok { db with lots := { db.lots with sequence := n } } else .error db
  | .loadLots texts =>
    match Loaders.load (loadLots pg) db.lots texts with
    | .ok t => .ok { db with lots := t }
    | .error seq => .error { db with lots := { db.lots with sequence := seq } }
  | .schoolsDaycares d =>
    stored db (fun t => { db with schoolsDaycares := { db.schoolsDaycares with target := t } })
      (Dml.exec SchoolDaycare.identifier (fun r => r.identifier.isSome) db.schoolsDaycares.target d)
  | .deleteSchoolsDaycares cond =>
    .ok { db with schoolsDaycares :=
      { db.schoolsDaycares with target := db.schoolsDaycares.target.filter (!cond ·) } }
  | .loadSchoolsDaycares texts =>
    match Loaders.load (loadSchoolsDaycares pg) db.schoolsDaycares texts with
    | .ok t => .ok { db with schoolsDaycares := t }
    | .error _ => .error db
  | .geocodes f => .ok { db with geocodes := f db.geocodes }
  | .refreshSchoolsDaycaresIndex =>
    .ok { db with schoolsDaycares :=
      { db.schoolsDaycares with index := some (db.schoolsDaycares.target.map (schoolView pg)) } }
  | .refreshGeocodesIndex => .ok { db with geocodesIndex := some (db.geocodes.map (geocodeView pg)) }
  | .refreshCitiesIndex =>
    match db.geocodesIndex with
    -- materialized view "geocodes_index" has not been populated
    | none => .error db
    | some rows => .ok { db with citiesIndex := some (cities pg loc rows) }

/-- a rollback does not touch the sequence -/
def undo (saved now : Db) : Db := { saved with lots := { saved.lots with sequence := now.lots.sequence } }

/-- what an application does with its connection, or psql with a script that has no inline lines -/
def commands (db : Db) (cs : List (Command Stmt)) : Db :=
  close undo (run (Session.step (exec pg loc) undo) (.idle db) cs)

/-- what `psql -f` does with a script -/
def psqlFile (psql : Psql.Scanner Stmt) (db : Db) (items : List (Psql.Item Stmt)) : Db :=
  Psql.file psql (exec pg loc) undo db items

/-! ## Scripts -/

/-- the rows of 5_Lookup_Data.sql, which are of the types of their columns -/
structure Rows where
  agents : List Agent
  diseases : List Disease
  trades : List Trade
  publicHealthUnits : List PublicHealthUnit
  agentsDiseases : List AgentDisease
  tradesAgents : List TradeAgent
  lots : List Lot
  schoolsDaycares : List SchoolDaycare

/-- the lines behind each COPY of 5_Lookup_Data.sql -/
structure Inline where
  agents : Psql.Lines
  diseases : Psql.Lines
  trades : Psql.Lines
  publicHealthUnits : Psql.Lines
  agentsDiseases : Psql.Lines
  tradesAgents : Psql.Lines
  lots : Psql.Lines
  schoolsDaycares : Psql.Lines

/-- the statements between START TRANSACTION and the COPY of schools_daycares, which is the last before COMMIT -/
def copies (rows : Rows) (lines : Inline) : List (Stmt × Option Psql.Lines) :=
  [ (.lookup (.write (.agents (.copy rows.agents))), lines.agents),
    (.lookup (.write (.diseases (.copy rows.diseases))), lines.diseases),
    (.lookup (.write (.trades (.copy rows.trades))), lines.trades),
    (.publicHealthUnits (.copy rows.publicHealthUnits), lines.publicHealthUnits),
    (.lookup (.agentsDiseases (.copy rows.agentsDiseases)), lines.agentsDiseases),
    (.lookup (.tradesAgents (.copy rows.tradesAgents)), lines.tradesAgents),
    (.lots (.copy rows.lots), lines.lots),
    (.setvalLots 1783, none) ]

/-- 5_Lookup_Data.sql -/
def lookupData (rows : Rows) (lines : Inline) : List (Psql.Item Stmt) :=
  Psql.block (copies rows lines) (.schoolsDaycares (.copy rows.schoolsDaycares)) lines.schoolsDaycares
    [.refreshSchoolsDaycaresIndex, .refreshCitiesIndex]

/-- the statements of DeleteLookupData.sql -/
def deletions : List Stmt :=
  [ .lookup (.delete (.agentsDiseases fun _ => true)),
    .lookup (.delete (.tradesAgents fun _ => true)),
    .deleteLots fun _ => true,
    .lookup (.delete (.diseases fun _ => true)),
    .lookup (.delete (.agents fun _ => true)),
    .lookup (.delete (.trades fun _ => true)),
    .deleteSchoolsDaycares fun _ => true ]

def deleteLookupData : List (Command Stmt) := deletions.map .stmt

def deleteGeocodeData : List (Command Stmt) := [.stmt (.geocodes fun _ => [])]

/-! ## What always holds -/

structure Inv (db : Db) : Prop where
  keys : Keys db.lookup
  publicHealthUnits : (db.publicHealthUnits.map PublicHealthUnit.id).Nodup
  lots : (db.lots.target.map Lot.lotId).Nodup
  identifiers : (db.schoolsDaycares.target.map SchoolDaycare.identifier).Nodup
  identified : ∀ r ∈ db.schoolsDaycares.target, r.identifier.isSome = true
  stagedLots : db.lots.staging = []
  stagedSchools : db.schoolsDaycares.staging = []
  /-- cities_index reads geocodes_index -/
  populated : db.citiesIndex ≠ none → db.geocodesIndex ≠ none

theorem inv_created : Inv created where
  keys := keys_empty
  publicHealthUnits := List.nodup_nil
  lots := List.nodup_nil
  identifiers := List.nodup_nil
  identified := fun _ hr => absurd hr List.not_mem_nil
  stagedLots := rfl
  stagedSchools := rfl
  populated := fun h => absurd rfl h

/-- a load leaves rows that its target took in, or none, or what was there -/
theorem load_target {R I : Type} {l : Loaders.Loader R I} {db db' : Loaders.Db R I} {texts : List String}
    (hs : db.staging = []) (h : Loaders.load l db texts = .ok db') :
    db'.target = db.target ∨ db'.target = [] ∨ ∃ rows, l.insert [] rows = some db'.target := by
  by_cases hne : texts = []
  · subst hne
    have hdb : db' = { db with staging := db.staging ++ [] } := (Except.ok.inj h).symm
    exact Or.inl (by rw [hdb])
  · obtain ⟨rows, seq, target, -, hins, -, hone, hmore⟩ := WholePayload.load_ok hs hne h
    by_cases h1 : texts.length = 1
    · exact Or.inr (Or.inr ⟨rows, by rw [(hone h1).1]; exact hins⟩)
    · exact Or.inr (Or.inl (hmore h1).1)

theorem load_staging {R I : Type} {l : Loaders.Loader R I} {db db' : Loaders.Db R I} {texts : List String}
    (hs : db.staging = []) (h : Loaders.load l db texts = .ok db') : db'.staging = [] := by
  by_cases hne : texts = []
  · subst hne
    rw [← Except.ok.inj h]
    simpa using hs
  · obtain ⟨-, -, -, -, -, hst, -⟩ := WholePayload.load_ok hs hne h
    exact hst

/-- what a statement lets in, it lets in row by row -/
theorem exec_identified {t : List SchoolDaycare} {tab : List SchoolDaycare} {d : Dml.Stmt SchoolDaycare}
    (h : ∀ r ∈ tab, r.identifier.isSome = true)
    (ho : Dml.exec SchoolDaycare.identifier (fun r => r.identifier.isSome) tab d = some t) :
    ∀ r ∈ t, r.identifier.isSome = true := by
  intro r hr
  cases d with
  | insert rows | copy rows =>
    obtain ⟨ht, hok⟩ := insertRows_eq _ _ _ _ _ ho
    rw [ht] at hr
    rcases List.mem_append.1 hr with hr | hr
    · exact h r hr
    · exact hok r hr
  | update set =>
    rcases updateRows_mem _ _ set [] _ t ho r hr with hd | ⟨hm, -⟩ | ⟨r0, -, -, hok⟩
    · exact absurd hd List.not_mem_nil
    · exact h r hm
    · exact hok

/-- and so does a load -/
theorem load_identified {t t' : Loaders.Db SchoolDaycare SchoolDaycare} {texts : List String} (hs : t.staging = [])
    (hkeys : (t.target.map SchoolDaycare.identifier).Nodup) (hsome : ∀ r ∈ t.target, r.identifier.isSome = true)
    (h : Loaders.load (loadSchoolsDaycares pg) t texts = .ok t') :
    (t'.target.map SchoolDaycare.identifier).Nodup ∧ ∀ r ∈ t'.target, r.identifier.isSome = true := by
  rcases load_target hs h with ht | ht | ⟨rows, ht⟩
  · rw [ht]
    exact ⟨hkeys, hsome⟩
  · rw [ht]
    exact ⟨List.nodup_nil, fun r hr => absurd hr List.not_mem_nil⟩
  · obtain ⟨he, hok⟩ := insertRows_eq SchoolDaycare.identifier _ _ _ _ ht
    refine ⟨insertRows_keys _ _ [] rows _ List.nodup_nil ht, ?_⟩
    rw [he]
    exact hok

theorem exec_inv (db : Db) (s : Stmt) (h : Inv db) : Inv (result (exec pg loc db s)) := by
  cases s with
  | lookup o =>
    have hk := Statements.step_keys db.lookup o h.keys
    unfold Statements.step at hk
    simp only [exec]
    cases ho : Statements.exec db.lookup o with
    | none => exact h
    | some t => exact { h with keys := by rw [ho] at hk; exact hk }
  | publicHealthUnits d =>
    simp only [exec]
    cases ho : Dml.exec PublicHealthUnit.id (fun _ => true) db.publicHealthUnits d with
    | none => exact h
    | some t => exact { h with publicHealthUnits := exec_keys _ _ _ _ d h.publicHealthUnits ho }
  | deletePublicHealthUnits cond =>
    exact { h with publicHealthUnits := h.publicHealthUnits.sublist (List.filter_sublist.map _) }
  | lots d =>
    simp only [exec]
    cases ho : Dml.exec Lot.lotId (fun _ => true) db.lots.target d with
    | none => exact h
    | some t => exact { h with lots := exec_keys _ _ _ _ d h.lots ho }
  | deleteLots cond => exact { h with lots := h.lots.sublist (List.filter_sublist.map _) }
  | setvalLots n =>
    simp only [exec]
    split_ifs
    · exact { h with }
    · exact h
  | loadLots texts =>
    simp only [exec]
    cases ho : Loaders.load (loadLots pg) db.lots texts with
    | error seq => exact { h with }
    | ok t =>
      refine { h with lots := ?_, stagedLots := load_staging h.stagedLots ho }
      rcases load_target h.stagedLots ho with ht | ht | ⟨rows, ht⟩
      · exact ht ▸ h.lots
      · simp [result, ht]
      · exact insertRows_keys Lot.lotId (fun _ => true) [] rows _ List.nodup_nil ht
  | schoolsDaycares d =>
    simp only [exec]
    cases ho : Dml.exec SchoolDaycare.identifier (fun r => r.identifier.isSome) db.schoolsDaycares.target d with
    | none => exact h
    | some t =>
      exact { h with
        identifiers := exec_keys _ _ _ _ d h.identifiers ho
        identified := exec_identified h.identified ho }
  | deleteSchoolsDaycares cond =>
    refine { h with identifiers := h.identifiers.sublist (List.filter_sublist.map _), identified := ?_ }
    exact fun r hr => h.identified r (List.filter_sublist.subset hr)
  | loadSchoolsDaycares texts =>
    simp only [exec]
    cases ho : Loaders.load (loadSchoolsDaycares pg) db.schoolsDaycares texts with
    | error seq => exact h
    | ok t =>
      obtain ⟨hkeys, hsome⟩ := load_identified pg h.stagedSchools h.identifiers h.identified ho
      exact { h with identifiers := hkeys, identified := hsome, stagedSchools := load_staging h.stagedSchools ho }
  | geocodes f => exact { h with }
  | refreshSchoolsDaycaresIndex => exact { h with }
  | refreshGeocodesIndex => exact { h with populated := fun _ => Option.some_ne_none _ }
  | refreshCitiesIndex =>
    simp only [exec]
    cases hg : db.geocodesIndex with
    | none => exact h
    | some rows => exact { h with populated := fun _ => by simp [result] }

theorem undo_inv (saved now : Db) (hs : Inv saved) (_ : Inv now) : Inv (undo saved now) := { hs with }

theorem commands_keep {P : Db → Prop} (hundo : ∀ saved now, P saved → P now → P (undo saved now)) {db : Db}
    {cs : List (Command Stmt)} (hexec : ∀ s, .stmt s ∈ cs → ∀ db, P db → P (result (exec pg loc db s))) (h : P db) :
    P (commands pg loc db cs) :=
  close_keeps hundo (run_keeps hundo hexec h)

theorem commands_inv {db : Db} (h : Inv db) (cs : List (Command Stmt)) : Inv (commands pg loc db cs) :=
  commands_keep pg loc undo_inv (fun s _ db hdb => exec_inv pg loc db s hdb) h

/-- without inline lines a script is a session of all its commands -/
theorem psqlFile_map (psql : Psql.Scanner Stmt) (db : Db) (cs : List (Command Stmt)) :
    psqlFile pg loc psql db (cs.map .command) = commands pg loc db cs := by
  rw [psqlFile, Psql.file, Psql.start, Psql.commands_read, commands]

/-- and any script that psql reads is a session of some of its commands -/
theorem psqlFile_commands (psql : Psql.Scanner Stmt) (db : Db) (items : List (Psql.Item Stmt)) :
    ∃ cs, cs.Sublist (items.map Psql.Item.toCommand) ∧ psqlFile pg loc psql db items = commands pg loc db cs :=
  Psql.file_session psql (exec pg loc) undo db items

/-- it holds of whatever sessions, one after the other, make of the new tables -/
theorem reached (sessions : List (List (Command Stmt))) : Inv (run (commands pg loc) created sessions) :=
  have hstep : ∀ db cs, Inv db → Inv (commands pg loc db cs) := fun _ cs h => commands_inv pg loc h cs
  run_inv hstep created sessions inv_created

end

end IconSetup.LookupData
