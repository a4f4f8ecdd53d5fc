/-
The view lot_lookups: one row for each agent and one for each trade, with the lots that name it.

Both branches group their table by its primary key and find the lots by a correlated subquery on an aggregate of the
group, `lots.agent_snomed = ANY (array_agg(agents.snomed))` and `lots.trade_panorama_name = ANY
(array_agg(trades.panorama_name))`. Nothing ties lots to the two tables: the code is no foreign key, and the name is
nullable and not unique. The text of a date in JSON is a parameter.

- `lotsSubselect_eq`: over a group of one row, the subquery finds the lots whose column equals the row's.
- `lotLookups_perm`: the rows of the view, one for each key.
- `lotObject_shown`: what is listed for a lot.
- `lot_lookups_exact`: each row lists exactly its lots, and a lot is in no row iff no agent and no trade matches it.
-/
import Mathlib.Tactic
import IconSetup.Lookup.Views
import IconSetup.Load.Loaders

namespace IconSetup.LotLookups

open IconSetup.Ternary IconSetup.Query IconSetup.Schema IconSetup.Json IconSetup.Views
open IconSetup.Loaders (Lot LotRecord)

/-! ## The view -/

/-- a row of lot_lookups -/
structure LotLookupRow where
  snomed : String
  lots : Option (List Json)
deriving DecidableEq, Repr

section
variable (dateText : ℤ → String)

/-- `json_build_object('lotNumber', lot_number, 'expiry', expiry)` -/
def lotObject (lot : Lot) : Json :=
  jsonBuildObject [("lotNumber", ofText lot.record.lotNumber), ("expiry", ofText (lot.record.expiry.map dateText))]

/-- `(SELECT array_agg(obj) FROM lots WHERE column = ANY (array_agg(outer)))`; `outer` holds the aggregated column
over the rows of the outer group -/
def lotsSubselect {α : Type} [DecidableEq α] (lots : List Lot) (column : LotRecord → Option α)
    (outer : List (Option α)) : Option (List Json) :=
  arrayAgg ((lots.filter fun lot => holds (eqAny (column lot.record) (arrayAgg outer))).map (lotObject dateText))

def lotLookupsAgents (db : Db) (lots : List Lot) : List LotLookupRow :=
  selectGroups
    (fun a g => ⟨toString a.snomed, lotsSubselect dateText lots LotRecord.agentSnomed (g.map fun a => some a.snomed)⟩)
    (groupBy Agent.snomed db.agents)

def lotLookupsTrades (db : Db) (lots : List Lot) : List LotLookupRow :=
  selectGroups
    (fun t g => ⟨toString t.snomed,
      lotsSubselect dateText lots LotRecord.tradePanoramaName (g.map fun t => t.panoramaName)⟩)
    (groupBy Trade.snomed db.trades)

def lotLookups (db : Db) (lots : List Lot) : List LotLookupRow :=
  unionAll (lotLookupsAgents dateText db lots) (lotLookupsTrades dateText db lots)

end

/-! ## The rows of the view -/

/-- an agent or a trade -/
inductive LotKey where
  | agent (a : Agent)
  | trade (t : Trade)
deriving DecidableEq, Repr

def LotKey.snomed : LotKey → ℤ
  | .agent a => a.snomed
  | .trade t => t.snomed

/-- one key for each agent and one for each trade -/
def lotKeys (db : Db) : List LotKey := db.agents.map .agent ++ db.trades.map .trade

/-- the lot has the agent's code, or the trade's name -/
def Names (lot : Lot) : LotKey → Prop
  | .agent a => lot.record.agentSnomed = some a.snomed
  | .trade t => ∃ name, t.panoramaName = some name ∧ lot.record.tradePanoramaName = some name

instance (lot : Lot) (k : LotKey) : Decidable (Names lot k) :=
  match k with
  | .agent a => inferInstanceAs (Decidable (lot.record.agentSnomed = some a.snomed))
  | .trade t =>
    match h : t.panoramaName with
    | none => isFalse fun ⟨name, hn, _⟩ => by rw [h] at hn; cases hn
    | some name => decidable_of_iff (lot.record.tradePanoramaName = some name) (by simp [Names, h])

def lotsOf (lots : List Lot) (k : LotKey) : List Lot := lots.filter fun lot => decide (Names lot k)

theorem mem_lotsOf {lots : List Lot} {k : LotKey} {lot : Lot} : lot ∈ lotsOf lots k ↔ lot ∈ lots ∧ Names lot k := by
  simp [lotsOf]

section
variable (dateText : ℤ → String) (lots : List Lot)

def lotRowOf (k : LotKey) : LotLookupRow := ⟨toString k.snomed, arrayAgg ((lotsOf lots k).map (lotObject dateText))⟩

/-- **The correlated subquery finds exactly the lots that name the row.** -/
theorem lotsSubselect_eq {α : Type} [DecidableEq α] (column : LotRecord → Option α) (value : Option α) (k : LotKey)
    (hk : ∀ lot, Names lot k ↔ ∃ a, value = some a ∧ column lot.record = some a) :
    lotsSubselect dateText lots column [value] = arrayAgg ((lotsOf lots k).map (lotObject dateText)) := by
  have hfilter : lots.filter (fun lot => holds (eqAny (column lot.record) (arrayAgg [value]))) = lotsOf lots k := by
    apply List.filter_congr
    intro lot _
    rw [arrayAgg, Bool.eq_iff_iff, holds_eqAny_iff, decide_eq_true_eq, hk lot]
    simp only [List.mem_singleton]
    constructor
    · rintro ⟨a, ha, hv⟩; exact ⟨a, hv.symm, ha⟩
    · rintro ⟨a, hv, ha⟩; exact ⟨a, ha, hv.symm⟩
  rw [lotsSubselect, hfilter]

/-- a table grouped by its primary key gives one row for each of its rows -/
theorem select_groupBy_key {α ρ : Type} {sel : α → List α → ρ} {out : α → ρ} {key : α → ℤ} {tab : List α}
    (hk : (tab.map key).Nodup) (hsel : ∀ x, sel x [x] = out x) :
    (selectGroups sel (groupBy key tab)).Perm (tab.map out) := by
  have h : (selectGroups sel (groupBy key (tab.flatMap fun x => [x]))).Perm (tab.map out) := by
    apply select_groupBy hk
    · intro x _; exact List.cons_ne_nil x []
    · intro x _ r hr; rw [List.mem_singleton.1 hr]
    · intro x _ r hr; rw [List.mem_singleton.1 hr, hsel]
  rwa [List.flatMap_singleton'] at h

theorem lotLookups_perm {db : Db} (hk : Keys db) :
    (lotLookups dateText db lots).Perm ((lotKeys db).map (lotRowOf dateText lots)) := by
  rw [lotLookups, unionAll, lotKeys, List.map_append, List.map_map, List.map_map]
  refine List.Perm.append ?_ ?_
  · apply select_groupBy_key hk.agentsPkey
    intro a
    simp only [List.map_cons, List.map_nil, Function.comp, lotRowOf, LotKey.snomed, LotLookupRow.mk.injEq, true_and]
    exact lotsSubselect_eq dateText lots _ _ (.agent a) fun lot => by simp [Names]
  · apply select_groupBy_key hk.tradesPkey
    intro t
    simp only [List.map_cons, List.map_nil, Function.comp, lotRowOf, LotKey.snomed, LotLookupRow.mk.injEq, true_and]
    exact lotsSubselect_eq dateText lots _ _ (.trade t) fun lot => Iff.rfl

end

/-! ## Lots in the view -/

/-- the object of a lot: its number and its expiry -/
def lotShown (dateText : ℤ → String) (record : LotRecord) : Json :=
  .obj [("lotNumber", record.lotNumber.elim .null .str),
    ("expiry", record.expiry.elim .null fun day => .str (dateText day))]

/-- what the view owes for one agent or trade: its code, and `ls`, the lots that name it, in some order -/
structure LotRowFor (dateText : ℤ → String) (lots : List Lot) (k : LotKey) (ls : List Lot) (r : LotLookupRow) : Prop where
  snomed : r.snomed = toString k.snomed
  listed : ls ≠ [] → r.lots = some (ls.map fun lot => lotShown dateText lot.record)
  exact : ls.Perm (lots.filter fun lot => decide (Names lot k))
  null : r.lots = none ↔ ∀ lot ∈ lots, ¬ Names lot k
  noName : ∀ t, k = .trade t → t.panoramaName = none → r.lots = none

theorem lotObject_shown (dateText : ℤ → String) (lot : Lot) : lotObject dateText lot = lotShown dateText lot.record := by
  have htext : ∀ t : Option String, ofText t = t.elim .null .str := fun t => by cases t <;> rfl
  rw [lotObject, jsonBuildObject, lotShown, htext, htext, Option.elim_map]
  rfl

theorem arrayAgg_eq_none {α : Type} {l : List α} : arrayAgg l = none ↔ l = [] := by
  cases l <;> simp [arrayAgg]

theorem lotRowOf_null {dateText : ℤ → String} {lots : List Lot} {k : LotKey} :
    (lotRowOf dateText lots k).lots = none ↔ ∀ lot ∈ lots, ¬ Names lot k := by
  simp [lotRowOf, arrayAgg_eq_none, lotsOf, List.filter_eq_nil_iff]

theorem lotRowOf_listed {dateText : ℤ → String} {lots : List Lot} {k : LotKey} (hne : lotsOf lots k ≠ []) :
    (lotRowOf dateText lots k).lots = some ((lotsOf lots k).map fun lot => lotShown dateText lot.record) := by
  have hmap : (lotsOf lots k).map (lotObject dateText) ≠ [] := by simpa using hne
  rw [lotRowOf, arrayAgg_of_ne_nil hmap, List.map_congr_left fun lot _ => lotObject_shown dateText lot]

theorem lotRowFor (dateText : ℤ → String) (lots : List Lot) (k : LotKey) :
    LotRowFor dateText lots k (lotsOf lots k) (lotRowOf dateText lots k) where
  snomed := rfl
  listed := lotRowOf_listed
  exact := List.Perm.refl _
  null := lotRowOf_null
  noName := by
    rintro t rfl hnone
    rw [lotRowOf_null]
    rintro lot - ⟨name, hname, -⟩
    rw [hnone] at hname
    cases hname

theorem not_named_iff {db : Db} {lot : Lot} : (∀ k ∈ lotKeys db, ¬ Names lot k) ↔
    (∀ a ∈ db.agents, lot.record.agentSnomed ≠ some a.snomed) ∧
      ∀ t ∈ db.trades, ∀ name, lot.record.tradePanoramaName = some name → t.panoramaName ≠ some name := by
  constructor
  · intro h
    constructor
    · intro a ha; exact h (.agent a) (List.mem_append_left _ (List.mem_map_of_mem ha))
    · intro t ht name hlot hname
      exact h (.trade t) (List.mem_append_right _ (List.mem_map_of_mem ht)) ⟨name, hname, hlot⟩
  · rintro ⟨hagents, htrades⟩ k hk
    rcases List.mem_append.1 hk with hk | hk
    · obtain ⟨a, ha, rfl⟩ := List.mem_map.1 hk
      exact hagents a ha
    · obtain ⟨t, ht, rfl⟩ := List.mem_map.1 hk
      rintro ⟨name, hname, hlot⟩
      exact htrades t ht name hlot hname

/-- **lot_lookups distributes lots exactly.** Its rows correspond one by one to the agents and the trades. The row of
an agent lists exactly the lots with its code, the row of a trade exactly the lots with its name, each as often as it
is stored and with its number and its expiry; the list is NULL iff there is no such lot. A lot is in no row iff
neither its code nor its name matches one. -/
theorem lot_lookups_exact (dateText : ℤ → String) (db : Db) (lots : List Lot) (hk : Keys db) :
    ∃ rows : List (LotKey × List Lot),
      (rows.map Prod.fst).Perm (db.agents.map .agent ++ db.trades.map .trade) ∧
      List.Forall₂ (fun p r => LotRowFor dateText lots p.1 p.2 r) rows (lotLookups dateText db lots) ∧
      ∀ lot ∈ lots, (∀ p ∈ rows, lot ∉ p.2) ↔
        (∀ a ∈ db.agents, lot.record.agentSnomed ≠ some a.snomed) ∧
          ∀ t ∈ db.trades, ∀ name, lot.record.tradePanoramaName = some name → t.panoramaName ≠ some name := by
  obtain ⟨ks, hks, he⟩ := exists_map_of_perm (lotLookups_perm dateText lots hk)
  refine ⟨ks.map fun k => (k, lotsOf lots k), ?_, ?_, ?_⟩
  · rw [List.map_map]
    simpa [Function.comp_def, lotKeys] using hks
  · rw [he, List.forall₂_map_left_iff, List.forall₂_map_right_iff]
    exact List.forall₂_same.2 fun k _ => lotRowFor dateText lots k
  · intro lot hlot
    rw [← not_named_iff]
    constructor
    · intro h k hk' hn
      exact h _ (List.mem_map_of_mem (hks.mem_iff.2 hk')) (mem_lotsOf.2 ⟨hlot, hn⟩)
    · intro h p hp hm
      obtain ⟨k, hk', rfl⟩ := List.mem_map.1 hp
      exact h k (hks.mem_iff.1 hk') (mem_lotsOf.1 hm).2

/-- lots of an agent, of a trade that has no name, and of neither -/
def sampleLots : List Lot :=
  [⟨1, some "A1", some 7305, some 1, none⟩, ⟨2, some "A2", none, some 1, some "T1"⟩, ⟨3, some "A3", none, some 99, none⟩]

theorem lot_lookups_exact_sample : ∃ rows : List (LotKey × List Lot),
    (rows.map Prod.fst).Perm (sampleDb.agents.map .agent ++ sampleDb.trades.map .trade) ∧
    List.Forall₂ (fun p r => LotRowFor toString sampleLots p.1 p.2 r) rows (lotLookups toString sampleDb sampleLots) := by
  obtain ⟨rows, h1, h2, -⟩ := lot_lookups_exact toString sampleDb sampleLots sampleDb_keys
  exact ⟨rows, h1, h2⟩

end IconSetup.LotLookups
