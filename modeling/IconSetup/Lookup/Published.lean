/-
From a payload to the view: what lot_lookups shows after an INSERT into load_lots, in any state of the lookup database
and through any sessions after it.

- `lotRows_iff`: a payload is loaded iff every element gives a record and the ids last.
- `exec_target`: only statements on lots change its rows.
- `lots_published`: lot_lookups then shows the records of the payload under the agents and the trades that are stored
  when it is read; what was loaded before, and the ids, leave no trace. A payload that is refused changes nothing that it
  shows.
-/
import Mathlib.Tactic
import IconSetup.Core.Fallible
import IconSetup.Core.Run
import IconSetup.Core.Query
import IconSetup.Core.Session
import IconSetup.Lookup.Schema
import IconSetup.Lookup.Views
import IconSetup.Lookup.LotLookups
import IconSetup.Lookup.LookupData
import IconSetup.Load.Loaders
import IconSetup.Load.WholePayload
import IconSetup.Load.LotIds

namespace IconSetup.Published

open IconSetup.Fallible IconSetup.Run IconSetup.Query IconSetup.Session IconSetup.LookupData IconSetup.LotLookups
open IconSetup.Views (DbLocale)
open IconSetup.Loaders (Pg Lot LotRecord lotRecord lotRows nextLotId loadLots)
open IconSetup.WholePayload (SaysLot lotRecord_iff)

/-! ## The payload -/

/-- the text is an array whose elements say these records -/
def Payload (pg : Pg) (text : String) (records : List LotRecord) : Prop :=
  ∃ js, pg.elements text = some js ∧ List.Forall₂ (SaysLot pg) js records

/-- the ids that the payload takes are integers -/
def IdsLast (seq : ℤ) (records : List LotRecord) : Prop := records = [] ∨ seq + records.length ≤ 2147483647

section
variable {pg : Pg}

/-- **When the rows of an array can be made**, and which they are -/
theorem lotRows_iff {js : List pg.Json} {seq : ℤ} {records : List LotRecord} :
    (∃ rows seq', lotRows pg js seq = (some rows, seq') ∧ rows.map Lot.record = records) ↔
      js.mapM (lotRecord pg) = some records ∧ IdsLast seq records := by
  induction js generalizing seq records with
  | nil =>
    constructor
    · rintro ⟨rows, seq', h, rfl⟩
      cases h
      exact ⟨rfl, Or.inl rfl⟩
    · intro ⟨h, _⟩
      cases h
      exact ⟨[], seq, rfl, rfl⟩
  | cons values js ih =>
    constructor
    · rintro ⟨rows, seq', h, rfl⟩
      obtain ⟨record, rows', hid, hrec, hrest, rfl⟩ := Loaders.lotRows_cons h
      obtain ⟨hmap, hlast⟩ := ih.1 ⟨rows', seq', hrest, rfl⟩
      refine ⟨?_, Or.inr ?_⟩
      · rw [List.mapM_cons, hrec, hmap]
        rfl
      · unfold nextLotId at hid
        split_ifs at hid with hle
        rcases hlast with hnil | hlast
        · rw [List.map_cons, hnil]
          exact hle
        · rw [List.map_cons, List.length_cons]
          push_cast
          omega
    · intro ⟨hmap, hlast⟩
      rw [mapM_eq_some] at hmap
      cases hmap with
      | @cons _ record _ records' hrec hrest =>
        have hle : seq + 1 + records'.length ≤ 2147483647 := by
          rcases hlast with hnil | hlast
          · cases hnil
          · rw [List.length_cons] at hlast
            push_cast at hlast
            omega
        obtain ⟨rows, seq', hrows, rfl⟩ := ih.2 ⟨mapM_eq_some.2 hrest, Or.inr hle⟩
        have hid : nextLotId seq = some (seq + 1) := if_pos (by omega)
        refine ⟨⟨seq + 1, record⟩ :: rows, seq', ?_, rfl⟩
        simp only [lotRows, hid, hrec, hrows]

/-- a load of one payload succeeds iff it is one of lots and its ids last, and then lots holds its records in order -/
theorem load_iff {db : Loaders.Db Lot Unit} (hs : db.staging = []) (text : String) (records : List LotRecord) :
    (∃ db', Loaders.load (loadLots pg) db [text] = .ok db' ∧ db'.target.map Lot.record = records) ↔
      Payload pg text records ∧ IdsLast db.sequence records := by
  rw [LotIds.load_single hs, LotIds.selectLots_single, Payload]
  cases hjs : pg.elements text with
  | none =>
    constructor
    · rintro ⟨db', h, -⟩
      cases h
    · rintro ⟨⟨js, h, -⟩, -⟩
      cases h
  | some js =>
    have hrecords : List.Forall₂ (SaysLot pg) js records ↔ js.mapM (lotRecord pg) = some records := by
      simp only [mapM_eq_some, lotRecord_iff]
    simp only [Option.some.injEq, exists_eq_left', hrecords]
    rw [← lotRows_iff]
    constructor
    · rintro ⟨db', h, hrec⟩
      rcases hrows : lotRows pg js db.sequence with ⟨_ | rows, seq⟩
      · rw [hrows] at h
        cases h
      · rw [hrows] at h
        cases h
        exact ⟨rows, seq, rfl, hrec⟩
    · rintro ⟨rows, seq, hrows, hrec⟩
      refine ⟨⟨rows, some db.target, [], seq, db.index⟩, ?_, hrec⟩
      rw [hrows]

end

/-! ## Statements that leave lots alone -/

def WritesLots : Stmt → Prop
  | .lots _ => True
  | .deleteLots _ => True
  | .loadLots _ => True
  | _ => False

section
variable (pg : Pg) (loc : DbLocale)

theorem exec_target {s : Stmt} (hs : ¬ WritesLots s) (db : Db) :
    (result (exec pg loc db s)).lots.target = db.lots.target := by
  cases s with
  | lots d => exact absurd trivial hs
  | deleteLots cond => exact absurd trivial hs
  | loadLots texts => exact absurd trivial hs
  | lookup o =>
    simp only [exec]
    cases Statements.exec db.lookup o <;> rfl
  | publicHealthUnits d =>
    simp only [exec]
    cases Dml.exec PublicHealthUnit.id (fun _ => true) db.publicHealthUnits d <;> rfl
  | setvalLots n =>
    simp only [exec]
    split_ifs <;> rfl
  | schoolsDaycares d =>
    simp only [exec]
    cases Dml.exec Loaders.SchoolDaycare.identifier (fun r => r.identifier.isSome) db.schoolsDaycares.target d <;> rfl
  | loadSchoolsDaycares texts =>
    simp only [exec]
    cases Loaders.load (Loaders.loadSchoolsDaycares pg) db.schoolsDaycares texts <;> rfl
  | refreshCitiesIndex =>
    simp only [exec]
    cases db.geocodesIndex <;> rfl
  | deletePublicHealthUnits cond | deleteSchoolsDaycares cond | geocodes f | refreshSchoolsDaycaresIndex
  | refreshGeocodesIndex => rfl

/-- sessions without such statements leave the rows of lots -/
theorem sessions_target {db : Db} {more : List (List (Command Stmt))}
    (hmore : ∀ cs ∈ more, ∀ s, .stmt s ∈ cs → ¬ WritesLots s) :
    (run (commands pg loc) db more).lots.target = db.lots.target := by
  induction more generalizing db with
  | nil => rfl
  | cons cs more ih =>
    have hfirst : (commands pg loc db cs).lots.target = db.lots.target := by
      refine commands_keep pg loc (P := fun d => d.lots.target = db.lots.target) (fun _ _ hsaved _ => hsaved) ?_ rfl
      intro s hs d hd
      rw [exec_target pg loc (hmore cs List.mem_cons_self s hs), hd]
    rw [run_cons, ih fun cs' hcs' => hmore cs' (List.mem_cons_of_mem cs hcs'), hfirst]

end

/-! ## The view -/

/-- the row of an agent or a trade: its code, and `rs`, the records that name it, in some order -/
structure Publishes (dateText : ℤ → String) (records : List LotRecord) (k : LotKey) (rs : List LotRecord)
    (r : LotLookupRow) : Prop where
  snomed : r.snomed = toString k.snomed
  exact : rs.Perm (records.filter fun x => decide (Names ⟨0, x⟩ k))
  listed : rs ≠ [] → r.lots = some (rs.map (lotShown dateText))
  null : rs = [] → r.lots = none

/-- one row for each agent and each trade that is stored -/
def Shows (dateText : ℤ → String) (records : List LotRecord) (db : Schema.Db) (view : List LotLookupRow) : Prop :=
  ∃ rows : List (LotKey × List LotRecord), (rows.map Prod.fst).Perm (db.agents.map .agent ++ db.trades.map .trade) ∧
    List.Forall₂ (fun p r => Publishes dateText records p.1 p.2 r) rows view

theorem names_record (lot : Lot) (k : LotKey) : Names ⟨0, lot.record⟩ k ↔ Names lot k := by
  cases k <;> rfl

/-- the view does not show the ids -/
theorem lotRowOf_publishes (dateText : ℤ → String) (lots : List Lot) (k : LotKey) :
    Publishes dateText (lots.map Lot.record) k ((lotsOf lots k).map Lot.record) (lotRowOf dateText lots k) := by
  have hrow := lotRowFor dateText lots k
  refine ⟨hrow.snomed, ?_, fun hne => ?_, fun hnil => ?_⟩
  · rw [List.filter_map]
    simp only [Function.comp_def, names_record]
    exact hrow.exact.map Lot.record
  · rw [List.map_map]
    exact hrow.listed fun hnil => hne (by rw [hnil, List.map_nil])
  · rw [hrow.null]
    intro lot hlot hnames
    exact List.not_mem_nil (List.map_eq_nil_iff.1 hnil ▸ mem_lotsOf.2 ⟨hlot, hnames⟩)

theorem lotLookups_shows (dateText : ℤ → String) {db : Db} (h : Inv db) :
    Shows dateText (db.lots.target.map Lot.record) db.lookup (lotLookups dateText db.lookup db.lots.target) := by
  obtain ⟨ks, hks, he⟩ := exists_map_of_perm (lotLookups_perm dateText db.lots.target h.keys)
  refine ⟨ks.map fun k => (k, (lotsOf db.lots.target k).map Lot.record), ?_, ?_⟩
  · rw [List.map_map]
    simpa [Function.comp_def, lotKeys] using hks
  · rw [he, List.forall₂_map_left_iff, List.forall₂_map_right_iff]
    exact List.forall₂_same.2 fun k _ => lotRowOf_publishes dateText db.lots.target k

/-- **What a load publishes.** Let any sessions have run, then one INSERT into load_lots, then sessions that do not
write lots. If the payload is one of lots and its ids last, then lot_lookups has one row for each agent and each trade
stored now, which lists the payload's records that name it, in some order, each with its number and its expiry.
Otherwise lots has the rows it had. -/
theorem lots_published (pg : Pg) (loc : DbLocale) (dateText : ℤ → String) (sessions : List (List (Command Stmt)))
    (text : String) (more : List (List (Command Stmt))) (hmore : ∀ cs ∈ more, ∀ s, .stmt s ∈ cs → ¬ WritesLots s)
    (before after : Db) (hbefore : before = run (commands pg loc) created sessions)
    (hafter : after = run (commands pg loc) before ([.stmt (.loadLots [text])] :: more)) :
    (∀ records, Payload pg text records → IdsLast before.lots.sequence records →
      Shows dateText records after.lookup (lotLookups dateText after.lookup after.lots.target)) ∧
    ((∀ records, Payload pg text records → ¬ IdsLast before.lots.sequence records) →
      after.lots.target = before.lots.target) := by
  have hb : Inv before := hbefore ▸ reached pg loc sessions
  have ha : Inv after := by
    rw [hafter, hbefore, ← run_append]
    exact reached pg loc _
  have htarget : after.lots.target = (result (exec pg loc before (.loadLots [text]))).lots.target := by
    rw [hafter, run_cons, sessions_target pg loc hmore]
    rfl
  constructor
  · intro records hpayload hlast
    obtain ⟨t, hload, hrec⟩ := (load_iff hb.stagedLots text records).2 ⟨hpayload, hlast⟩
    have hloaded : after.lots.target.map Lot.record = records := by
      rw [htarget]
      simp only [exec, hload, result]
      exact hrec
    rw [← hloaded]
    exact lotLookups_shows dateText ha
  · intro hrefused
    rw [htarget]
    simp only [exec]
    cases hload : Loaders.load (loadLots pg) before.lots [text] with
    | error seq => rfl
    | ok t =>
      obtain ⟨hpayload, hlast⟩ := (load_iff hb.stagedLots text _).1 ⟨t, hload, rfl⟩
      exact absurd hlast (hrefused _ hpayload)

/-! ## A lot of one agent -/

def agentText : String := "[\x7b\"lotNumber\": \"A1\", \"agentSnomedCode\": \"1\"\x7d]"

def agentPg : Pg where
  Json := List (String × String)
  elements := fun values => if values = agentText then some [[("lotNumber", "A1"), ("agentSnomedCode", "1")]] else none
  text := fun values key => some (values.lookup key)
  toDate := fun _ _ => none
  bigint := fun s => if s = "1" then some 1 else none
  initcap := id
  upper := id

def agentSession : List (Command Stmt) := [.stmt (.lookup (.write (.agents (.insert [Prevalence.agent9]))))]

/-- the one element of the text, and what it says -/
theorem agentPg_payload : Payload agentPg agentText [⟨some "A1", none, some 1, none⟩] := by
  refine ⟨[[("lotNumber", "A1"), ("agentSnomedCode", "1")]], rfl, .cons (lotRecord_iff.1 ?_) .nil⟩
  decide

/-- the lot is under its agent -/
theorem lots_published_sample : Shows toString [⟨some "A1", none, some 1, none⟩] ⟨[], [Prevalence.agent9], [], [], []⟩
    (lotLookups toString ⟨[], [Prevalence.agent9], [], [], []⟩
      (run (commands agentPg Views.cLocale) (run (commands agentPg Views.cLocale) created [agentSession])
        ([.stmt (.loadLots [agentText])] :: [deleteGeocodeData])).lots.target) :=
  (lots_published agentPg Views.cLocale toString [agentSession] agentText [deleteGeocodeData]
    (by simp [deleteGeocodeData, WritesLots]) _ _ rfl rfl).1 [⟨some "A1", none, some 1, none⟩] agentPg_payload
    (Or.inr (by decide))

end IconSetup.Published
