/-
What a load statement leaves, for any number of staged rows. The trigger fires once for each row, but its body works
on whole tables: the first firing moves all staged rows to the target; every further firing finds nothing staged, and
moves the target to the backup and leaves the target empty. So two rows leave the payload in the backup only, and
three or more leave it nowhere.

- `lotRecord_iff`, `schoolRecord_iff`: what is extracted from an element, column by column.
- `refire`: the further firings of a statement.
- `load_ok`: what a successful statement leaves, by the number of its rows.
- `loaded_iff`: the contract holds exactly when one row was staged, or the arrays and the target were empty.
- `load_statements_whole`: that, for both loaders and every state with nothing staged; and along every run of such
  statements the target is the latest payload and the backup is what the target held before it.
- `two_arrays_lost`: two staged rows leave the target empty.
-/
import Mathlib.Tactic
import IconSetup.Core.Run
import IconSetup.Load.Loaders

namespace IconSetup.WholePayload

open IconSetup.Run IconSetup.Fallible IconSetup.Text IconSetup.Dml IconSetup.Loaders

variable {R I : Type}

/-! ## The contract -/

/-- the target holds what was staged, the backup what the target held before, and nothing is staged -/
def Loaded (holds : List R → Prop) (before after : Db R I) : Prop :=
  holds after.target ∧ after.bak = some before.target ∧ after.staging = []

/-- the elements of all arrays, in order -/
def Elements (pg : Pg) (texts : List String) (js : List pg.Json) : Prop :=
  ∃ arrays, List.Forall₂ (fun text js => pg.elements text = some js) texts arrays ∧ js = arrays.flatten

section
variable (pg : Pg) (values : pg.Json)

/-- the text under the key, in a varchar(n) column -/
def TextColumn (key : String) (n : ℕ) (column : Option String) : Prop :=
  ∃ raw, pg.text values key = some raw ∧ Fits n raw ∧ column = cut n raw

/-- the text under the key, converted; NULL where it is NULL -/
def ConvertedColumn {α : Type} (key : String) (convert : String → Option α) (column : Option α) : Prop :=
  ∃ raw, pg.text values key = some raw ∧ Option.Rel (fun s x => convert s = some x) raw column

/-- what an element says about a lot -/
structure SaysLot (r : LotRecord) : Prop where
  lotNumber : TextColumn pg values "lotNumber" 100 r.lotNumber
  expiry : ConvertedColumn pg values "lotExpiryDate" (pg.toDate · "YY-MM-DD") r.expiry
  agentSnomed : ConvertedColumn pg values "agentSnomedCode" pg.bigint r.agentSnomed
  tradePanoramaName : TextColumn pg values "tradeName" 100 r.tradePanoramaName

/-- what an element says about a school or daycare -/
structure SaysSchool (r : SchoolDaycare) : Prop where
  identifier : TextColumn pg values "identifier" 50 r.identifier
  phu : TextColumn pg values "phu" 100 r.phu
  orgType : TextColumn pg values "orgType" 100 r.orgType
  name : TextColumn pg values "name" 100 r.name
  address : TextColumn pg values "streetAddress" 100 r.address
  postalCode : TextColumn pg values "postalCode" 8 r.postalCode
  city : TextColumn pg values "city" 100 r.city

end

/-- lots has one row for each element of the arrays -/
def HoldsLots (pg : Pg) (texts : List String) (lots : List Lot) : Prop :=
  ∃ js records, Elements pg texts js ∧ List.Forall₂ (SaysLot pg) js records ∧ (lots.map Lot.record).Perm records

/-- schools_daycares is the set of the distinct records of the arrays -/
def HoldsSchoolsDaycares (pg : Pg) (texts : List String) (schools : List SchoolDaycare) : Prop :=
  ∃ js records, Elements pg texts js ∧ List.Forall₂ (SaysSchool pg) js records ∧ schools.Nodup ∧
    ∀ r, r ∈ schools ↔ r ∈ records

/-- one row is staged; or the staged arrays have no element, and the target has no row to back up -/
def OneRow (pg : Pg) (target : List R) (texts : List String) : Prop :=
  texts.length = 1 ∨ (fieldsRowset pg texts = some [] ∧ target = [])

/-- a statement that raises an error -/
def Refused (l : Loader R I) (db : Db R I) (texts : List String) : Prop := ∃ seq, load l db texts = .error seq

/-! ## One statement -/

theorem indexAfter_idem (l : Loader R I) (target : List R) (index : Option (List I)) :
    indexAfter l target (indexAfter l target index) = indexAfter l target index := by
  unfold indexAfter
  split_ifs <;> rfl

/-- the firings after the first: once more moves the target to the backup, twice more empties both -/
theorem refire (l : Loader R I) (db : Db R I) (rest : List String) (hs : db.staging = []) (hne : rest ≠ []) :
    rest.foldlM (fun db _ => fire l db) db =
      .ok ⟨[], some (if rest.length = 1 then db.target else []), [], db.sequence, indexAfter l [] db.index⟩ := by
  induction rest generalizing db with
  | nil => exact absurd rfl hne
  | cons x rest ih =>
    rw [List.foldlM_cons, fire_nil l db hs]
    simp only [bind, Except.bind]
    cases rest with
    | nil => rfl
    | cons y rest =>
      rw [ih _ rfl (List.cons_ne_nil y rest)]
      simp only [indexAfter_idem, ite_self, List.length_cons]
      rw [if_neg (by omega)]

theorem load_ok {l : Loader R I} {db db' : Db R I} {texts : List String} (hs : db.staging = []) (hne : texts ≠ [])
    (h : load l db texts = .ok db') :
    ∃ rows seq target, l.select texts db.sequence = (some rows, seq) ∧ l.insert [] rows = some target ∧
      db'.staging = [] ∧
      (texts.length = 1 → db'.target = target ∧ db'.bak = some db.target) ∧
      (texts.length ≠ 1 → db'.target = [] ∧ db'.bak = some (if texts.length = 2 then target else [])) := by
  cases texts with
  | nil => exact absurd rfl hne
  | cons x rest =>
    rw [load, List.foldlM_cons, fire_eq] at h
    simp only [hs, List.nil_append] at h
    rcases hsel : l.select (x :: rest) db.sequence with ⟨_ | rows, seq⟩
    · simp only [hsel, bind, Except.bind] at h; cases h
    · simp only [hsel] at h
      cases hins : l.insert [] rows with
      | none => simp only [hins, bind, Except.bind] at h; cases h
      | some target =>
        simp only [hins, bind, Except.bind] at h
        refine ⟨rows, seq, target, rfl, hins, ?_⟩
        cases rest with
        | nil =>
          cases h
          exact ⟨rfl, fun _ => ⟨rfl, rfl⟩, fun hn => absurd rfl hn⟩
        | cons y rest =>
          rw [refire l _ (y :: rest) rfl (List.cons_ne_nil y rest)] at h
          cases h
          refine ⟨rfl, fun h1 => ?_, fun _ => ⟨rfl, ?_⟩⟩
          · simp at h1
          · simp only [List.length_cons, Nat.reduceEqDiff]

/-- the contract of a loader, given what its first firing leaves -/
theorem loaded_iff {l : Loader R I} {pg : Pg} {db db' : Db R I} {texts : List String} {holds : List R → Prop}
    (hs : db.staging = []) (hne : texts ≠ []) (h : load l db texts = .ok db')
    (hfirst : ∀ rows seq target, l.select texts db.sequence = (some rows, seq) → l.insert [] rows = some target →
      holds target)
    (hempty : holds [] ↔ fieldsRowset pg texts = some [])
    (honly : ∀ target, holds target → holds [] → target = []) :
    Loaded holds db db' ↔ OneRow pg db.target texts := by
  obtain ⟨rows, seq, target, hsel, hins, hst, hone, hmore⟩ := load_ok hs hne h
  have ht := hfirst rows seq target hsel hins
  by_cases h1 : texts.length = 1
  · obtain ⟨h2, h3⟩ := hone h1
    constructor
    · intro _; exact Or.inl h1
    · intro _; exact ⟨h2 ▸ ht, h3, hst⟩
  · obtain ⟨h2, h3⟩ := hmore h1
    unfold Loaded OneRow
    rw [h2, h3]
    constructor
    · intro ⟨hh, hb, _⟩
      have ht0 := honly target ht hh
      rw [ht0, ite_self, Option.some.injEq] at hb
      exact Or.inr ⟨hempty.1 hh, hb.symm⟩
    · intro hc
      rcases hc with hc | ⟨he, hd⟩
      · exact absurd hc h1
      · have hh := hempty.2 he
        rw [honly target ht hh, ite_self, hd]
        exact ⟨hh, rfl, hst⟩

/-! ## The two loaders -/

theorem strict_rel {α β : Type} {f : α → Option β} {a : Option α} {b : Option β} :
    strict f a = some b ↔ Option.Rel (fun a b => f a = some b) a b := by
  cases a with
  | none =>
    cases b with
    | none => exact iff_of_true rfl .none
    | some b => exact iff_of_false (fun h => by cases h) fun h => by cases h
  | some a =>
    cases b with
    | none => exact iff_of_false (fun h => by simp [strict] at h) fun h => by cases h
    | some b =>
      have hrel : Option.Rel (fun a b => f a = some b) (some a) (some b) ↔ f a = some b :=
        ⟨fun h => (by cases h; assumption), fun h => .some h⟩
      rw [hrel]
      simp [strict]

theorem lotRecord_iff {pg : Pg} {values : pg.Json} {r : LotRecord} :
    lotRecord pg values = some r ↔ SaysLot pg values r := by
  simp only [lotRecord, Option.bind_eq_bind, Option.bind_eq_some_iff, castVarchar_iff, strict_rel, Option.pure_def,
    Option.some.injEq]
  constructor
  · rintro ⟨raw1, h1, _, ⟨hf1, rfl⟩, raw2, h2, _, hr2, raw3, h3, _, hr3, raw4, h4, _, ⟨hf4, rfl⟩, rfl⟩
    exact ⟨⟨raw1, h1, hf1, rfl⟩, ⟨raw2, h2, hr2⟩, ⟨raw3, h3, hr3⟩, ⟨raw4, h4, hf4, rfl⟩⟩
  · rintro ⟨⟨raw1, h1, hf1, he1⟩, ⟨raw2, h2, hr2⟩, ⟨raw3, h3, hr3⟩, ⟨raw4, h4, hf4, he4⟩⟩
    refine ⟨raw1, h1, _, ⟨hf1, rfl⟩, raw2, h2, _, hr2, raw3, h3, _, hr3, raw4, h4, _, ⟨hf4, rfl⟩, ?_⟩
    rw [← he1, ← he4]

theorem schoolRecord_iff {pg : Pg} {values : pg.Json} {r : SchoolDaycare} :
    ((schoolFields pg values).bind schoolRow) = some r ↔ SaysSchool pg values r := by
  simp only [schoolFields, schoolRow, Option.bind_eq_bind, Option.bind_eq_some_iff, castVarchar_iff, Option.pure_def,
    Option.some.injEq]
  constructor
  · rintro ⟨_, ⟨phu, h1, orgType, h2, name, h3, identifier, h4, address, h5, postalCode, h6, city, h7, rfl⟩,
      _, ⟨f1, rfl⟩, _, ⟨f2, rfl⟩, _, ⟨f3, rfl⟩, _, ⟨f4, rfl⟩, _, ⟨f5, rfl⟩, _, ⟨f6, rfl⟩, _, ⟨f7, rfl⟩, rfl⟩
    exact ⟨⟨_, h4, f4, rfl⟩, ⟨_, h1, f1, rfl⟩, ⟨_, h2, f2, rfl⟩, ⟨_, h3, f3, rfl⟩, ⟨_, h5, f5, rfl⟩, ⟨_, h6, f6, rfl⟩,
      ⟨_, h7, f7, rfl⟩⟩
  · rintro ⟨⟨_, h4, f4, e4⟩, ⟨_, h1, f1, e1⟩, ⟨_, h2, f2, e2⟩, ⟨_, h3, f3, e3⟩, ⟨_, h5, f5, e5⟩, ⟨_, h6, f6, e6⟩,
      ⟨_, h7, f7, e7⟩⟩
    refine ⟨_, ⟨_, h1, _, h2, _, h3, _, h4, _, h5, _, h6, _, h7, rfl⟩, _, ⟨f1, rfl⟩, _, ⟨f2, rfl⟩, _, ⟨f3, rfl⟩, _,
      ⟨f4, rfl⟩, _, ⟨f5, rfl⟩, _, ⟨f6, rfl⟩, _, ⟨f7, rfl⟩, ?_⟩
    dsimp only
    rw [← e1, ← e2, ← e3, ← e4, ← e5, ← e6, ← e7]

theorem elements_iff {pg : Pg} {texts : List String} {js : List pg.Json} :
    fieldsRowset pg texts = some js ↔ Elements pg texts js := by
  simp only [fieldsRowset, Option.map_eq_some_iff, mapM_eq_some, Elements, eq_comm]

/-- a computation over the staged elements, by what it finds in each -/
theorem records_iff {α : Type} {pg : Pg} {texts : List String} {f : pg.Json → Option α} {spec : pg.Json → α → Prop}
    (hf : ∀ values r, f values = some r ↔ spec values r) {records : List α} :
    (fieldsRowset pg texts).bind (fun js => js.mapM f) = some records ↔
      ∃ js, Elements pg texts js ∧ List.Forall₂ spec js records := by
  simp only [Option.bind_eq_some_iff, elements_iff, mapM_eq_some, hf]

theorem holdsLots_iff {pg : Pg} {texts : List String} {lots : List Lot} : HoldsLots pg texts lots ↔
    ∃ records, lotRecords pg texts = some records ∧ (lots.map Lot.record).Perm records := by
  have hrecords : ∀ records, lotRecords pg texts = some records ↔
      ∃ js, Elements pg texts js ∧ List.Forall₂ (SaysLot pg) js records :=
    fun records => records_iff fun values r => lotRecord_iff
  simp only [HoldsLots, hrecords]
  constructor
  · rintro ⟨js, records, hjs, hall, hperm⟩
    exact ⟨records, ⟨js, hjs, hall⟩, hperm⟩
  · rintro ⟨records, ⟨js, hjs, hall⟩, hperm⟩
    exact ⟨js, records, hjs, hall, hperm⟩

theorem holdsSchoolsDaycares_iff {pg : Pg} {texts : List String} {schools : List SchoolDaycare} :
    HoldsSchoolsDaycares pg texts schools ↔
      ∃ records, schoolRecords pg texts = some records ∧ schools.Nodup ∧ ∀ r, r ∈ schools ↔ r ∈ records := by
  have hrecords : ∀ records, schoolRecords pg texts = some records ↔
      ∃ js, Elements pg texts js ∧ List.Forall₂ (SaysSchool pg) js records :=
    fun records => records_iff fun values r => schoolRecord_iff
  simp only [HoldsSchoolsDaycares, hrecords]
  constructor
  · rintro ⟨js, records, hjs, hall, hset⟩
    exact ⟨records, ⟨js, hjs, hall⟩, hset⟩
  · rintro ⟨records, ⟨js, hjs, hall⟩, hset⟩
    exact ⟨js, records, hjs, hall, hset⟩

/-- a computation over the staged elements gives nothing iff there is no element -/
theorem records_nil_iff {α : Type} {pg : Pg} {texts : List String} {f : pg.Json → Option α} {records : List α}
    (h : (fieldsRowset pg texts).bind (fun js => js.mapM f) = some records) :
    records = [] ↔ fieldsRowset pg texts = some [] := by
  obtain ⟨js, hjs, hm⟩ := Option.bind_eq_some_iff.1 h
  have hlen : js.length = records.length := (mapM_eq_some.1 hm).length_eq
  rw [hjs, Option.some.injEq]
  constructor
  · intro hr; exact List.length_eq_zero_iff.1 (by rw [hlen, hr]; rfl)
  · intro hj; exact List.length_eq_zero_iff.1 (by rw [← hlen, hj]; rfl)

theorem holdsLots_of_select {pg : Pg} {texts : List String} {seq seq' : ℤ} {rows target : List Lot}
    (hsel : (loadLots pg).select texts seq = (some rows, seq')) (hins : (loadLots pg).insert [] rows = some target) :
    HoldsLots pg texts target := by
  rw [(loadLots pg).insert_append _ _ _ hins, List.nil_append, holdsLots_iff]
  exact ⟨_, selectLots_records pg texts seq seq' rows hsel, List.Perm.refl _⟩

theorem holdsSchoolsDaycares_of_select {pg : Pg} {texts : List String} {seq seq' : ℤ}
    {rows target : List SchoolDaycare} (hsel : (loadSchoolsDaycares pg).select texts seq = (some rows, seq'))
    (hins : (loadSchoolsDaycares pg).insert [] rows = some target) : HoldsSchoolsDaycares pg texts target := by
  obtain ⟨records, hrec, hmem⟩ := selectSchoolsDaycares_mem pg texts rows (Prod.mk.inj hsel).1
  have hkeys := insertRows_keys SchoolDaycare.identifier _ [] _ _ List.nodup_nil hins
  rw [(loadSchoolsDaycares pg).insert_append _ _ _ hins, List.nil_append] at hkeys ⊢
  exact holdsSchoolsDaycares_iff.2 ⟨records, hrec, hkeys.of_map, hmem⟩

theorem lots_loaded_iff {pg : Pg} {db db' : Db Lot Unit} {texts : List String} (hs : db.staging = [])
    (hne : texts ≠ []) (h : load (loadLots pg) db texts = .ok db') :
    Loaded (HoldsLots pg texts) db db' ↔ OneRow pg db.target texts := by
  obtain ⟨rows, seq, target, hsel, hins, -⟩ := load_ok hs hne h
  have hrec := selectLots_records pg texts db.sequence seq rows hsel
  refine loaded_iff hs hne h (fun _ _ _ hsel' hins' => holdsLots_of_select hsel' hins') ?_ fun target' ht h0 => ?_
  · rw [← records_nil_iff hrec]
    rw [holdsLots_iff, hrec]
    constructor
    · intro ⟨records, hr, hp⟩
      cases hr
      exact (List.nil_perm.1 hp)
    · intro he; exact ⟨_, rfl, by rw [he]; exact List.Perm.refl _⟩
  · obtain ⟨records, hr, hp⟩ := holdsLots_iff.1 ht
    obtain ⟨records', hr', hp'⟩ := holdsLots_iff.1 h0
    rw [hr] at hr'
    cases hr'
    rw [List.nil_perm.1 hp', List.perm_nil] at hp
    exact List.map_eq_nil_iff.1 hp

theorem schools_loaded_iff {pg : Pg} {db db' : Db SchoolDaycare SchoolDaycare} {texts : List String}
    (hs : db.staging = []) (hne : texts ≠ []) (h : load (loadSchoolsDaycares pg) db texts = .ok db') :
    Loaded (HoldsSchoolsDaycares pg texts) db db' ↔ OneRow pg db.target texts := by
  obtain ⟨rows, seq, target, hsel, hins, -⟩ := load_ok hs hne h
  obtain ⟨records, hrec, -⟩ := holdsSchoolsDaycares_iff.1 (holdsSchoolsDaycares_of_select hsel hins)
  refine loaded_iff hs hne h (fun _ _ _ hsel' hins' => holdsSchoolsDaycares_of_select hsel' hins') ?_
    fun target' ht h0 => ?_
  · rw [← records_nil_iff hrec]
    rw [holdsSchoolsDaycares_iff, hrec]
    constructor
    · intro ⟨records', hr, _, hm⟩
      cases hr
      exact List.eq_nil_iff_forall_not_mem.2 fun r hr => List.not_mem_nil ((hm r).2 hr)
    · intro he; exact ⟨records, rfl, List.nodup_nil, by rw [he]; exact fun _ => Iff.rfl⟩
  · obtain ⟨records1, hr1, _, hm1⟩ := holdsSchoolsDaycares_iff.1 ht
    obtain ⟨records2, hr2, _, hm2⟩ := holdsSchoolsDaycares_iff.1 h0
    rw [hr1] at hr2
    cases hr2
    exact List.eq_nil_iff_forall_not_mem.2 fun r hr => List.not_mem_nil ((hm2 r).2 ((hm1 r).1 hr))

/-! ## Runs -/

theorem step_staging (l : Loader R I) (db : Db R I) (texts : List String) (hs : db.staging = []) :
    (step l db texts).staging = [] := by
  unfold step
  cases h : load l db texts with
  | error seq => exact hs
  | ok db' =>
    by_cases hne : texts = []
    · subst hne; cases h; simpa using hs
    · obtain ⟨_, _, _, _, _, hst, _⟩ := load_ok hs hne h
      exact hst

/-- refused statements leave the tables as they were -/
theorem loaded_refused {l : Loader R I} {holds : List R → Prop} {before db : Db R I} (post : List (List String))
    (h : Loaded holds before db) (hr : Along (step l) (Refused l) db post) :
    Loaded holds before (run (step l) db post) := by
  refine run_inv_along (P := fun db => Loaded holds before db) (fun db texts hl href => ?_) db post h hr
  obtain ⟨seq, he⟩ := href
  rw [step, he]
  exact hl

/-- The last statement of the run that was not refused, with what it found: after the run its contract holds. -/
def LatestLoaded (l : Loader R I) (holds : List String → List R → Prop) (db : Db R I) (ops : List (List String)) :
    Prop :=
  ∀ pre texts post, ops = pre ++ texts :: post → (∃ db', load l (run (step l) db pre) texts = .ok db') →
    Along (step l) (Refused l) (step l (run (step l) db pre) texts) post →
    Loaded (holds texts) (run (step l) db pre) (run (step l) db ops)

theorem latest_loaded {l : Loader R I} {pg : Pg} {holds : List String → List R → Prop}
    (hload : ∀ db texts db', db.staging = [] → texts ≠ [] → load l db texts = .ok db' →
      (Loaded (holds texts) db db' ↔ OneRow pg db.target texts))
    (db : Db R I) (ops : List (List String)) (hs : db.staging = [])
    (hc : Along (step l) (fun db texts => texts ≠ [] ∧ OneRow pg db.target texts) db ops) :
    LatestLoaded l holds db ops := by
  intro pre texts post hops ⟨db', hok⟩ hpost
  subst hops
  obtain ⟨hne, hone⟩ := ((along_append _ _ _ _ _).1 hc).2.1
  have hst := run_inv (P := fun db : Db R I => db.staging = []) (step_staging l) db pre hs
  have hl := (hload _ texts db' hst hne hok).2 hone
  rw [run_append, run_cons]
  refine loaded_refused post ?_ hpost
  rw [step, hok]
  exact hl

/-- **A load statement moves its whole payload exactly when it stages one row** (or stages only empty arrays over an
empty target). This holds of both loaders, in every state with nothing staged. Along every run of load statements
that meet the condition, refused ones included, the target is the payload of the latest successful statement and the
backup is what the target held before that statement. -/
theorem load_statements_whole (pg : Pg) :
    ((∀ db texts db', db.staging = [] → texts ≠ [] → load (loadLots pg) db texts = .ok db' →
        (Loaded (HoldsLots pg texts) db db' ↔ OneRow pg db.target texts)) ∧
      ∀ db ops, db.staging = [] →
        Along (step (loadLots pg)) (fun db texts => texts ≠ [] ∧ OneRow pg db.target texts) db ops →
        LatestLoaded (loadLots pg) (HoldsLots pg) db ops) ∧
    (∀ db texts db', db.staging = [] → texts ≠ [] → load (loadSchoolsDaycares pg) db texts = .ok db' →
        (Loaded (HoldsSchoolsDaycares pg texts) db db' ↔ OneRow pg db.target texts)) ∧
      ∀ db ops, db.staging = [] →
        Along (step (loadSchoolsDaycares pg)) (fun db texts => texts ≠ [] ∧ OneRow pg db.target texts) db ops →
        LatestLoaded (loadSchoolsDaycares pg) (HoldsSchoolsDaycares pg) db ops := by
  have hlots := fun db texts db' => @lots_loaded_iff pg db db' texts
  have hschools := fun db texts db' => @schools_loaded_iff pg db db' texts
  exact ⟨⟨hlots, latest_loaded hlots⟩, hschools, latest_loaded hschools⟩

/-- PostgreSQL on the payloads of the examples below: one flat object in an array -/
def samplePg : Pg where
  Json := List (String × String)
  elements := fun values =>
    if values = "[\x7b\"lotNumber\": \"A1\"\x7d]" then some [[("lotNumber", "A1")]]
    else if values = "[\x7b\"lotNumber\": \"B2\"\x7d]" then some [[("lotNumber", "B2")]]
    else if values = "[\x7b\"identifier\": \"s1\"\x7d]" then some [[("identifier", "s1")]]
    else if values = "[\x7b\"identifier\": \"s2\"\x7d]" then some [[("identifier", "s2")]]
    else none
  text := fun values key => some (values.lookup key)
  toDate := fun _ _ => none
  bigint := fun _ => none
  initcap := id
  upper := id

def noLots : Db Lot Unit := ⟨[], none, [], 0, none⟩

def noSchools : Db SchoolDaycare SchoolDaycare := ⟨[], none, [], 0, none⟩

theorem load_statements_whole_sample :
    LatestLoaded (loadLots samplePg) (HoldsLots samplePg) noLots
      [["[\x7b\"lotNumber\": \"A1\"\x7d]"], ["[\x7b\"lotNumber\": \"B2\"\x7d]"]] :=
  (load_statements_whole samplePg).1.2 noLots _ rfl
    ⟨⟨List.cons_ne_nil _ _, Or.inl rfl⟩, ⟨List.cons_ne_nil _ _, Or.inl rfl⟩, trivial⟩

/-- **Two staged arrays are lost.** One statement that stages two arrays of one element leaves the target of either
loader empty. -/
theorem two_arrays_lost :
    (¬ ∀ db texts db', db.staging = [] → texts ≠ [] → load (loadLots samplePg) db texts = .ok db' →
      Loaded (HoldsLots samplePg texts) db db') ∧
    ¬ ∀ db texts db', db.staging = [] → texts ≠ [] → load (loadSchoolsDaycares samplePg) db texts = .ok db' →
      Loaded (HoldsSchoolsDaycares samplePg texts) db db' := by
  constructor
  · intro h
    have hok : load (loadLots samplePg) noLots ["[\x7b\"lotNumber\": \"A1\"\x7d]", "[\x7b\"lotNumber\": \"B2\"\x7d]"] =
        .ok ⟨[], some [⟨1, some "A1", none, none, none⟩, ⟨2, some "B2", none, none, none⟩], [], 2, none⟩ := by
      decide
    obtain ⟨-, hbak, -⟩ := h _ _ _ rfl (List.cons_ne_nil _ _) hok
    cases hbak
  · intro h
    have hok : load (loadSchoolsDaycares samplePg) noSchools
        ["[\x7b\"identifier\": \"s1\"\x7d]", "[\x7b\"identifier\": \"s2\"\x7d]"] =
        .ok ⟨[], some [⟨some "s1", none, none, none, none, none, none⟩, ⟨some "s2", none, none, none, none, none, none⟩],
          [], 0, some []⟩ := by
      decide
    obtain ⟨-, hbak, -⟩ := h _ _ _ rfl (List.cons_ne_nil _ _) hok
    cases hbak

end IconSetup.WholePayload
