/-
The materialized views schools_daycares_index and cities_index over whole sessions. Both start WITH NO DATA and show what
their query gave when they were last refreshed.

- `schools_index_follows`: schools_daycares_index is the image of schools_daycares after every load, and after every
  5_Lookup_Data.sql that gets to its last COPY, and stays so until a statement writes schools_daycares directly, as
  DeleteLookupData.sql does. Where an earlier COPY fails, psql does not get to the REFRESH.
- `cities_index_exact`: cities_index reads geocodes_index, which none of the scripts here refreshes: until somebody does,
  the REFRESH of 5_Lookup_Data.sql fails and cities_index stays empty. After that, 5_Lookup_Data.sql leaves in it each city
  of geocodes_index once, in order, if it gets to its last COPY, and otherwise leaves it as it was.
- `index_shows_deleted`: after DeleteLookupData.sql the index still shows the deleted rows, and it does so after the next
  5_Lookup_Data.sql, which is refused.
-/
import Mathlib.Tactic
import IconSetup.Core.Run
import IconSetup.Core.Query
import IconSetup.Core.Session
import IconSetup.Core.Psql
import IconSetup.Lookup.Views
import IconSetup.Lookup.LookupData
import IconSetup.Lookup.Reload
import IconSetup.Load.Loaders
import IconSetup.Load.WholePayload

namespace IconSetup.Indexes

open IconSetup.Run IconSetup.Query IconSetup.Session IconSetup.LookupData IconSetup.Reload
open IconSetup.Views (DbLocale)
open IconSetup.Loaders (Pg SchoolDaycare loadSchoolsDaycares schoolView)

/-! ## A load and its index -/

section
variable {R I : Type} {l : Loaders.Loader R I}

/-- the index is the image of the target -/
def Fresh (l : Loaders.Loader R I) (t : Loaders.Db R I) : Prop := t.index = some (t.target.map l.view)

theorem fire_fresh (hl : .refreshIndex ∈ l.body) {t t' : Loaders.Db R I} (h : Loaders.fire l t = .ok t') :
    Fresh l t' := by
  rw [Loaders.fire_eq] at h
  split at h
  · cases h
  · split at h
    · cases h
    · cases h
      simp only [Fresh, Loaders.indexAfter, hl, if_true]

theorem fires_fresh (hl : .refreshIndex ∈ l.body) (texts : List String) {t t' : Loaders.Db R I} (ht : Fresh l t)
    (h : texts.foldlM (fun t _ => Loaders.fire l t) t = .ok t') : Fresh l t' := by
  induction texts generalizing t with
  | nil => cases h; exact ht
  | cons x texts ih =>
    rw [List.foldlM_cons] at h
    obtain ⟨t1, h1, h2⟩ := bind_ok.1 h
    exact ih (fire_fresh hl h1) h2

/-- a load that succeeds leaves a fresh index, or did nothing -/
theorem load_fresh (hl : .refreshIndex ∈ l.body) {texts : List String} {t t' : Loaders.Db R I}
    (h : Loaders.load l t texts = .ok t') : (texts = [] ∧ t' = t) ∨ Fresh l t' := by
  cases texts with
  | nil =>
    left
    refine ⟨rfl, (Except.ok.inj h).symm.trans ?_⟩
    simp
  | cons x texts =>
    right
    rw [Loaders.load, List.foldlM_cons] at h
    obtain ⟨t1, h1, h2⟩ := bind_ok.1 h
    exact fires_fresh hl texts (fire_fresh hl h1) h2

end

/-! ## schools_daycares_index -/

/-- the statement writes schools_daycares itself, not through load_schools_daycares -/
def WritesSchools : Stmt → Prop
  | .schoolsDaycares _ => True
  | .deleteSchoolsDaycares _ => True
  | _ => False

section
variable (pg : Pg) (loc : DbLocale)

/-- schools_daycares_index shows schools_daycares -/
def IndexFresh (db : Db) : Prop := db.schoolsDaycares.index = some (db.schoolsDaycares.target.map (schoolShown pg))

theorem indexFresh_iff {db : Db} : IndexFresh pg db ↔ Fresh (loadSchoolsDaycares pg) db.schoolsDaycares := Iff.rfl

theorem refreshIndex_mem : .refreshIndex ∈ (loadSchoolsDaycares pg).body :=
  List.mem_of_getElem? (i := 5) rfl

theorem exec_fresh {s : Stmt} (hs : ¬ WritesSchools s) {db : Db} (h : IndexFresh pg db) :
    IndexFresh pg (result (exec pg loc db s)) := by
  cases s with
  | schoolsDaycares d => exact absurd trivial hs
  | deleteSchoolsDaycares cond => exact absurd trivial hs
  | loadSchoolsDaycares texts =>
    simp only [exec]
    cases hl : Loaders.load (loadSchoolsDaycares pg) db.schoolsDaycares texts with
    | error seq => exact h
    | ok t =>
      rcases load_fresh (refreshIndex_mem pg) hl with ⟨-, rfl⟩ | hf
      · exact h
      · exact (indexFresh_iff pg).2 hf
  | lookup o =>
    simp only [exec]
    cases Statements.exec db.lookup o <;> exact h
  | publicHealthUnits d =>
    simp only [exec]
    cases Dml.exec PublicHealthUnit.id (fun _ => true) db.publicHealthUnits d <;> exact h
  | lots d =>
    simp only [exec]
    cases Dml.exec Loaders.Lot.lotId (fun _ => true) db.lots.target d <;> exact h
  | setvalLots n =>
    simp only [exec]
    split_ifs <;> exact h
  | loadLots texts =>
    simp only [exec]
    cases Loaders.load (Loaders.loadLots pg) db.lots texts <;> exact h
  | refreshSchoolsDaycaresIndex => rfl
  | refreshCitiesIndex =>
    simp only [exec]
    cases db.geocodesIndex <;> exact h
  | deletePublicHealthUnits cond | deleteLots cond | geocodes f | refreshGeocodesIndex => exact h

theorem commands_fresh {db : Db} {cs : List (Command Stmt)} (hcs : ∀ s, .stmt s ∈ cs → ¬ WritesSchools s)
    (h : IndexFresh pg db) : IndexFresh pg (commands pg loc db cs) :=
  commands_keep pg loc (fun _ _ hs _ => hs) (fun s hs _ hdb => exec_fresh pg loc (hcs s hs) hdb) h

theorem sessions_fresh {db : Db} {more : List (List (Command Stmt))}
    (hmore : ∀ cs ∈ more, ∀ s, .stmt s ∈ cs → ¬ WritesSchools s) (h : IndexFresh pg db) :
    IndexFresh pg (run (commands pg loc) db more) := by
  induction more generalizing db with
  | nil => exact h
  | cons cs more ih =>
    have hfirst := commands_fresh pg loc (hmore cs List.mem_cons_self) h
    exact ih (fun cs' hcs' => hmore cs' (List.mem_cons_of_mem cs hcs')) hfirst

variable (psql : Psql.Scanner Stmt)

theorem lookupData_fresh {db : Db} (h : Inv db) {rows : Rows} (lines : Inline) (hl : FitsLookups db rows) :
    IndexFresh pg (psqlFile pg loc psql db (lookupData rows lines)) := by
  obtain ⟨db', hrun, -⟩ := refreshed_run pg loc psql h hl
  rw [hrun]
  rfl

/-- **schools_daycares_index follows its table.** In every state that sessions reach: 5_Lookup_Data.sql leaves it fresh if
its COPYs before the last are accepted, whether its schools are or not; if not, and lines of schools are pending, psql
leaves it as it was; every load that succeeds leaves it fresh; once fresh, it stays so through any further sessions that
do not write schools_daycares directly; and DeleteLookupData.sql keeps it fresh only if there was nothing to delete. -/
theorem schools_index_follows (sessions : List (List (Command Stmt))) (db : Db)
    (hdb : db = run (commands pg loc) created sessions) :
    (∀ rows lines, FitsLookups db rows → IndexFresh pg (psqlFile pg loc psql db (lookupData rows lines))) ∧
    (∀ rows lines, ¬ FitsLookups db rows → lines.schoolsDaycares.pending = true →
      (psqlFile pg loc psql db (lookupData rows lines)).schoolsDaycares = db.schoolsDaycares) ∧
    (∀ texts db', texts ≠ [] → exec pg loc db (.loadSchoolsDaycares texts) = .ok db' → IndexFresh pg db') ∧
    (∀ more : List (List (Command Stmt)), (∀ cs ∈ more, ∀ s, .stmt s ∈ cs → ¬ WritesSchools s) →
      IndexFresh pg db → IndexFresh pg (run (commands pg loc) db more)) ∧
    (IndexFresh pg db → (IndexFresh pg (commands pg loc db deleteLookupData) ↔ db.schoolsDaycares.target = [])) := by
  have h : Inv db := hdb ▸ reached pg loc sessions
  refine ⟨fun rows lines hl => lookupData_fresh pg loc psql h lines hl, fun rows lines hl hpending => ?_,
    fun texts db' hne hok => ?_, fun more hmore hf => sessions_fresh pg loc hmore hf, fun hf => ?_⟩
  · rw [(unfit_run pg loc psql h hl).2 hpending]
  · simp only [exec] at hok
    cases hl : Loaders.load (loadSchoolsDaycares pg) db.schoolsDaycares texts with
    | error seq => rw [hl] at hok; cases hok
    | ok t =>
      rw [hl] at hok
      cases hok
      exact (indexFresh_iff pg).2 ((load_fresh (refreshIndex_mem pg) hl).resolve_left fun hn => hne hn.1)
  · rw [deleteLookupData_run]
    have hindex : db.schoolsDaycares.index = some (db.schoolsDaycares.target.map (schoolShown pg)) := hf
    simp only [IndexFresh, cleared, hindex, List.map_nil, Option.some.injEq, List.map_eq_nil_iff]

/-! ## cities_index -/

theorem cities_sorted (rows : List GeocodeIndexRow) :
    (cities pg loc rows).Pairwise fun x y => nullsLast loc.le x y = true :=
  orderBy_sorted loc.preorders.nullsLast _

theorem cities_nodup (rows : List GeocodeIndexRow) : (cities pg loc rows).Nodup :=
  (orderBy_perm _ _).nodup_iff.2 (List.nodup_dedup _)

theorem mem_cities {rows : List GeocodeIndexRow} {c : Option String} :
    c ∈ cities pg loc rows ↔ ∃ r ∈ rows, r.city.map pg.initcap = c := by
  rw [cities, (orderBy_perm _ _).mem_iff, List.mem_dedup, List.mem_map]

/-- neither of the two is populated -/
def Unpopulated (db : Db) : Prop := db.geocodesIndex = none ∧ db.citiesIndex = none

theorem exec_unpopulated {s : Stmt} (hs : s ≠ .refreshGeocodesIndex) {db : Db} (h : Unpopulated db) :
    Unpopulated (result (exec pg loc db s)) := by
  cases s with
  | refreshGeocodesIndex => exact absurd rfl hs
  | refreshCitiesIndex =>
    simp only [exec, h.1]
    exact h
  | lookup o =>
    simp only [exec]
    cases Statements.exec db.lookup o <;> exact h
  | publicHealthUnits d =>
    simp only [exec]
    cases Dml.exec PublicHealthUnit.id (fun _ => true) db.publicHealthUnits d <;> exact h
  | lots d =>
    simp only [exec]
    cases Dml.exec Loaders.Lot.lotId (fun _ => true) db.lots.target d <;> exact h
  | setvalLots n =>
    simp only [exec]
    split_ifs <;> exact h
  | loadLots texts =>
    simp only [exec]
    cases Loaders.load (Loaders.loadLots pg) db.lots texts <;> exact h
  | schoolsDaycares d =>
    simp only [exec]
    cases Dml.exec SchoolDaycare.identifier (fun r => r.identifier.isSome) db.schoolsDaycares.target d <;> exact h
  | loadSchoolsDaycares texts =>
    simp only [exec]
    cases Loaders.load (loadSchoolsDaycares pg) db.schoolsDaycares texts <;> exact h
  | deletePublicHealthUnits cond | deleteLots cond | deleteSchoolsDaycares cond | geocodes f
  | refreshSchoolsDaycaresIndex => exact h

theorem sessions_unpopulated {db : Db} {sessions : List (List (Command Stmt))}
    (hs : ∀ cs ∈ sessions, .stmt .refreshGeocodesIndex ∉ cs) (h : Unpopulated db) :
    Unpopulated (run (commands pg loc) db sessions) := by
  induction sessions generalizing db with
  | nil => exact h
  | cons cs sessions ih =>
    have hfirst : Unpopulated (commands pg loc db cs) := by
      refine commands_keep pg loc (fun _ _ hs _ => hs) (fun s hmem _ hdb => exec_unpopulated pg loc ?_ hdb) h
      rintro rfl
      exact hs cs List.mem_cons_self hmem
    exact ih (fun cs' hcs' => hs cs' (List.mem_cons_of_mem cs hcs')) hfirst

/-- the scripts that clear tables do not refresh geocodes_index -/
theorem deletions_refresh : ∀ cs ∈ [deleteLookupData, deleteGeocodeData], .stmt .refreshGeocodesIndex ∉ cs := by
  simp [deleteLookupData, deletions, deleteGeocodeData]

/-- neither does 5_Lookup_Data.sql -/
theorem lookupData_refresh (rows : Rows) (lines : Inline) :
    .stmt .refreshGeocodesIndex ∉ (lookupData rows lines).map Psql.Item.toCommand := by
  simp [lookupData, Psql.block, copies, Psql.Item.of, Psql.Item.toCommand]

theorem lookupData_unpopulated {db : Db} (h : Unpopulated db) (rows : Rows) (lines : Inline) :
    Unpopulated (psqlFile pg loc psql db (lookupData rows lines)) := by
  obtain ⟨cs, hcs, he⟩ := psqlFile_commands pg loc psql db (lookupData rows lines)
  rw [he]
  have hrefresh : ∀ cs' ∈ [cs], .stmt .refreshGeocodesIndex ∉ cs' :=
    List.forall_mem_singleton.2 fun hmem => lookupData_refresh rows lines (hcs.subset hmem)
  exact sessions_unpopulated pg loc hrefresh h

theorem lookupData_cities {db : Db} (h : Inv db) {rows : Rows} (lines : Inline) (hl : FitsLookups db rows) :
    (psqlFile pg loc psql db (lookupData rows lines)).citiesIndex =
      match db.geocodesIndex with
      | none => db.citiesIndex
      | some g => some (cities pg loc g) := by
  obtain ⟨db', hrun, hgeocodes, hcities⟩ := refreshed_run pg loc psql h hl
  rw [hrun, ← hgeocodes, ← hcities]
  rfl

/-- **cities_index waits for geocodes_index.** As long as no session refreshes geocodes_index, cities_index is not
populated, however often 5_Lookup_Data.sql asks for it; and none of the scripts refreshes geocodes_index. Once it is
populated, 5_Lookup_Data.sql leaves in cities_index each of its cities once, in the order of the locale, and nothing
else, if its COPYs before the last are accepted; if not, and lines of schools are pending, cities_index stays as it was. -/
theorem cities_index_exact (sessions : List (List (Command Stmt))) (rows : Rows) (lines : Inline) (db : Db)
    (hdb : db = run (commands pg loc) created sessions) :
    ((∀ cs ∈ sessions, .stmt .refreshGeocodesIndex ∉ cs) → db.citiesIndex = none ∧
      (run (commands pg loc) (psqlFile pg loc psql db (lookupData rows lines))
        [deleteLookupData, deleteGeocodeData]).citiesIndex = none) ∧
    (∀ g, db.geocodesIndex = some g → FitsLookups db rows →
      ∃ cs, (psqlFile pg loc psql db (lookupData rows lines)).citiesIndex = some cs ∧
        (cs.Pairwise fun x y => nullsLast loc.le x y = true) ∧ cs.Nodup ∧
        ∀ c, c ∈ cs ↔ ∃ r ∈ g, r.city.map pg.initcap = c) ∧
    (¬ FitsLookups db rows → lines.schoolsDaycares.pending = true →
      (psqlFile pg loc psql db (lookupData rows lines)).citiesIndex = db.citiesIndex) := by
  have h : Inv db := hdb ▸ reached pg loc sessions
  refine ⟨fun hs => ?_, fun g hg hl => ?_, fun hl hpending => ?_⟩
  · have hnow : Unpopulated db := hdb ▸ sessions_unpopulated pg loc hs ⟨rfl, rfl⟩
    have hloaded := lookupData_unpopulated pg loc psql hnow rows lines
    exact ⟨hnow.2, (sessions_unpopulated pg loc deletions_refresh hloaded).2⟩
  · refine ⟨cities pg loc g, ?_, cities_sorted pg loc g, cities_nodup pg loc g, fun c => mem_cities pg loc⟩
    rw [lookupData_cities pg loc psql h lines hl, hg]
  · rw [(unfit_run pg loc psql h hl).2 hpending]

end

/-! ## One school -/

def school1 : SchoolDaycare := ⟨some "EO-713", none, some "Other", some "t r leger", none, none, none⟩

def schoolRows : Rows := ⟨[], [], [], [unit1], [], [], [], [school1]⟩

theorem schools_index_follows_sample : IndexFresh WholePayload.samplePg
    (psqlFile WholePayload.samplePg Views.cLocale samplePsql created (lookupData schoolRows sampleLines)) := by
  have hfits : FitsLookups created schoolRows :=
    ⟨⟨by decide, by decide, by decide, by decide, by decide, by decide⟩, by decide, List.nodup_nil⟩
  exact (schools_index_follows WholePayload.samplePg Views.cLocale samplePsql [] created rfl).1 schoolRows sampleLines
    hfits

theorem cities_index_exact_sample : (run (commands WholePayload.samplePg Views.cLocale)
    (psqlFile WholePayload.samplePg Views.cLocale samplePsql created (lookupData schoolRows sampleLines))
    [deleteLookupData, deleteGeocodeData]).citiesIndex = none :=
  ((cities_index_exact WholePayload.samplePg Views.cLocale samplePsql [] schoolRows sampleLines created rfl).1
    fun _ hcs => absurd hcs List.not_mem_nil).2

/-- **The index shows what is deleted.** After 5_Lookup_Data.sql and DeleteLookupData.sql schools_daycares is empty, and
its index still has the school. So it is when 5_Lookup_Data.sql is run again. -/
theorem index_shows_deleted :
    let deleted := commands WholePayload.samplePg Views.cLocale
      (psqlFile WholePayload.samplePg Views.cLocale samplePsql created (lookupData schoolRows sampleLines))
      deleteLookupData
    deleted.schoolsDaycares.target = [] ∧ deleted.schoolsDaycares.index = some [school1] ∧
    psqlFile WholePayload.samplePg Views.cLocale samplePsql deleted (lookupData schoolRows sampleLines) = deleted := by
  intro deleted
  have hfits : Fits created schoolRows :=
    ⟨⟨⟨by decide, by decide, by decide, by decide, by decide, by decide⟩, by decide, List.nodup_nil⟩, by decide,
      by decide⟩
  have hdeleted : deleted =
      cleared (refreshed WholePayload.samplePg Views.cLocale (loaded created schoolRows)) := by
    rw [← fits_run WholePayload.samplePg Views.cLocale samplePsql inv_created hfits]
    exact deleteLookupData_run WholePayload.samplePg Views.cLocale _
  have hinv : Inv deleted := by
    obtain ⟨cs, -, hcs⟩ := psqlFile_commands WholePayload.samplePg Views.cLocale samplePsql created
      (lookupData schoolRows sampleLines)
    exact commands_inv _ _ (hcs ▸ commands_inv _ _ inv_created cs) _
  have hunit : ¬ FitsLookups deleted schoolRows := fun hl => absurd hl.publicHealthUnits (by rw [hdeleted]; decide)
  refine ⟨by rw [hdeleted]; rfl, by rw [hdeleted]; rfl, ?_⟩
  exact (unfit_run WholePayload.samplePg Views.cLocale samplePsql hinv hunit).2 (by decide)

end IconSetup.Indexes
