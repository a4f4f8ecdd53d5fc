/-
The lookup tables of the database: the rows of trades, agents, diseases, lots and the two link tables, and the keys
and foreign keys that hold between them.

A nullable column is an `Option`; a column of a primary key is never NULL, so it is not. A bigint or int column is an
integer, the smallint domain of the prevalence columns is `Int16`, a date is a day number.
- `Keys`: what the primary keys and foreign keys guarantee of every stored state.
- `SameRows`: two states that hold the same rows in possibly different physical order. No query may depend on it.
-/
import Mathlib.Tactic

namespace IconSetup.Schema

structure Trade where
  snomed : ℤ
  friendlyEnName : Option String
  friendlyFrName : Option String
  manufacturer : Option String
  ontarioStartYear : Option ℤ
  ontarioFinishYear : Option ℤ
  prevalenceIndex : Option Int16
  panoramaName : Option String
deriving DecidableEq, Repr

structure Agent where
  snomed : ℤ
  shortEnName : Option String
  shortFrName : Option String
  longEnName : Option String
  longFrName : Option String
  isUserView : Option Bool
  prevalenceIndex : Option Int16
  ontarioStartYear : Option ℤ
  ontarioFinishYear : Option ℤ
  orderedDiseasesFr : Option String
  orderedDiseasesEn : Option String
deriving DecidableEq, Repr

structure Disease where
  snomed : ℤ
  friendlyEnName : Option String
  friendlyFrName : Option String
  yellowCardOrder : Option Int16
deriving DecidableEq, Repr

/-- a row of trades_agents -/
structure TradeAgent where
  agentSnomed : ℤ
  tradeSnomed : ℤ
deriving DecidableEq, Repr

/-- a row of agents_diseases -/
structure AgentDisease where
  agentSnomed : ℤ
  diseaseSnomed : ℤ
deriving DecidableEq, Repr

structure Db where
  trades : List Trade
  agents : List Agent
  diseases : List Disease
  tradesAgents : List TradeAgent
  agentsDiseases : List AgentDisease
deriving DecidableEq, Repr

def empty : Db := ⟨[], [], [], [], []⟩

/-- trades_agents: agents_fkey and trades_fkey; agents_diseases: agents_fkey and diseases_fkey -/
def ForeignKeys (db : Db) : Prop :=
  (∀ ta ∈ db.tradesAgents, ta.agentSnomed ∈ db.agents.map Agent.snomed ∧ ta.tradeSnomed ∈ db.trades.map Trade.snomed) ∧
  (∀ ad ∈ db.agentsDiseases,
    ad.agentSnomed ∈ db.agents.map Agent.snomed ∧ ad.diseaseSnomed ∈ db.diseases.map Disease.snomed)

instance (db : Db) : Decidable (ForeignKeys db) := by unfold ForeignKeys; infer_instance

/-- the primary keys and the foreign keys -/
structure Keys (db : Db) : Prop where
  tradesPkey : (db.trades.map Trade.snomed).Nodup
  agentsPkey : (db.agents.map Agent.snomed).Nodup
  diseasesPkey : (db.diseases.map Disease.snomed).Nodup
  tradesAgentsPkey : db.tradesAgents.Nodup
  agentsDiseasesPkey : db.agentsDiseases.Nodup
  foreign : ForeignKeys db

/-- the same rows, table by table, in any physical order -/
structure SameRows (db db' : Db) : Prop where
  trades : db.trades.Perm db'.trades
  agents : db.agents.Perm db'.agents
  diseases : db.diseases.Perm db'.diseases
  tradesAgents : db.tradesAgents.Perm db'.tradesAgents
  agentsDiseases : db.agentsDiseases.Perm db'.agentsDiseases

theorem SameRows.refl (db : Db) : SameRows db db :=
  ⟨List.Perm.refl _, List.Perm.refl _, List.Perm.refl _, List.Perm.refl _, List.Perm.refl _⟩

theorem SameRows.keys {db db' : Db} (h : SameRows db db') (hk : Keys db) : Keys db' where
  tradesPkey := (h.trades.map _).nodup_iff.1 hk.tradesPkey
  agentsPkey := (h.agents.map _).nodup_iff.1 hk.agentsPkey
  diseasesPkey := (h.diseases.map _).nodup_iff.1 hk.diseasesPkey
  tradesAgentsPkey := h.tradesAgents.nodup_iff.1 hk.tradesAgentsPkey
  agentsDiseasesPkey := h.agentsDiseases.nodup_iff.1 hk.agentsDiseasesPkey
  foreign := by
    refine ⟨fun ta hta => ?_, fun ad had => ?_⟩
    · obtain ⟨h1, h2⟩ := hk.foreign.1 ta (h.tradesAgents.mem_iff.2 hta)
      exact ⟨(h.agents.map _).mem_iff.1 h1, (h.trades.map _).mem_iff.1 h2⟩
    · obtain ⟨h1, h2⟩ := hk.foreign.2 ad (h.agentsDiseases.mem_iff.2 had)
      exact ⟨(h.agents.map _).mem_iff.1 h1, (h.diseases.map _).mem_iff.1 h2⟩

theorem keys_empty : Keys empty := ⟨by simp [empty], by simp [empty], by simp [empty], by simp [empty],
  by simp [empty], by simp [ForeignKeys, empty]⟩

/-- a primary key names one row -/
theorem eq_of_key {R : Type} {key : R → ℤ} {tab : List R} (hk : (tab.map key).Nodup) {x y : R} (hx : x ∈ tab)
    (hy : y ∈ tab) (h : key x = key y) : x = y :=
  List.inj_on_of_nodup_map hk hx hy h

end IconSetup.Schema
