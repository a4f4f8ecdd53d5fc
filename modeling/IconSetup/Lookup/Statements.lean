/-
All statements on the five lookup tables that the views of lookups read: INSERT, COPY and UPDATE on each of them, and
DELETE, which takes the links of a deleted agent, trade or disease with it (ON DELETE CASCADE).

A statement has rows of its table (`Rows.Typed`): integers in their range, texts that are as long as their column at most.
PostgreSQL sees to that before it looks at the keys, and refuses other input, or cuts it to such a row.

- `exec`: what a statement does, or that it is refused. A DELETE never is.
- `step_keys`: every statement keeps the primary keys and the foreign keys.
- `insert_iff`: INSERT and COPY are accepted iff the tables with the new rows satisfy the keys.
- `keys_in_every_state`: both, in every state that statements reach from the empty tables.
-/
import Mathlib.Tactic
import IconSetup.Core.Run
import IconSetup.Core.Dml
import IconSetup.Core.Cascade
import IconSetup.Lookup.Schema
import IconSetup.Lookup.TableColumns
import IconSetup.Lookup.Prevalence

namespace IconSetup.Statements

open IconSetup.Run IconSetup.Dml IconSetup.Cascade IconSetup.Schema IconSetup.TableColumns

/-! ## Statements -/

/-- `DELETE FROM table WHERE cond` -/
inductive Delete where
  | trades (cond : Trade → Bool)
  | agents (cond : Agent → Bool)
  | diseases (cond : Disease → Bool)
  | tradesAgents (cond : TradeAgent → Bool)
  | agentsDiseases (cond : AgentDisease → Bool)

def delete (db : Db) : Delete → Db
  | .trades cond =>
    { db with
      trades := Cascade.delete cond db.trades
      tradesAgents := cascade TradeAgent.tradeSnomed (gone Trade.snomed cond db.trades) db.tradesAgents }
  | .agents cond =>
    { db with
      agents := Cascade.delete cond db.agents
      tradesAgents := cascade TradeAgent.agentSnomed (gone Agent.snomed cond db.agents) db.tradesAgents
      agentsDiseases := cascade AgentDisease.agentSnomed (gone Agent.snomed cond db.agents) db.agentsDiseases }
  | .diseases cond =>
    { db with
      diseases := Cascade.delete cond db.diseases
      agentsDiseases := cascade AgentDisease.diseaseSnomed (gone Disease.snomed cond db.diseases) db.agentsDiseases }
  | .tradesAgents cond => { db with tradesAgents := Cascade.delete cond db.tradesAgents }
  | .agentsDiseases cond => { db with agentsDiseases := Cascade.delete cond db.agentsDiseases }

inductive Op where
  /-- INSERT, COPY or UPDATE on trades, agents or diseases -/
  | write (o : Prevalence.Op)
  | tradesAgents (d : Dml.Stmt TradeAgent)
  | agentsDiseases (d : Dml.Stmt AgentDisease)
  | delete (d : Delete)

/-- The statement's result, or `none` when it is refused. The primary key of a link table is the whole row; its foreign
keys are checked once the rows are in. -/
def exec (db : Db) : Op → Option Db
  | .write o => Prevalence.exec db o
  | .tradesAgents d =>
    match Dml.exec id (fun _ => true) db.tradesAgents d with
    | none => none
    | some tab => if ForeignKeys { db with tradesAgents := tab } then some { db with tradesAgents := tab } else none
  | .agentsDiseases d =>
    match Dml.exec id (fun _ => true) db.agentsDiseases d with
    | none => none
    | some tab => if ForeignKeys { db with agentsDiseases := tab } then some { db with agentsDiseases := tab } else none
  | .delete d => some (delete db d)

/-- a refused statement leaves the tables as they were -/
def step (db : Db) (o : Op) : Db := (exec db o).getD db

/-! ## The keys -/

/-- the four references -/
theorem foreignKeys_iff (db : Db) : ForeignKeys db ↔
    (Refers Agent.snomed TradeAgent.agentSnomed db.agents db.tradesAgents ∧
      Refers Trade.snomed TradeAgent.tradeSnomed db.trades db.tradesAgents) ∧
    Refers Agent.snomed AgentDisease.agentSnomed db.agents db.agentsDiseases ∧
      Refers Disease.snomed AgentDisease.diseaseSnomed db.diseases db.agentsDiseases := by
  simp only [ForeignKeys, Refers, forall₂_and]

theorem map_delete {R : Type} {key : R → ℤ} {tab : List R} (hk : (tab.map key).Nodup) (cond : R → Bool) :
    ((Cascade.delete cond tab).map key).Nodup :=
  hk.sublist ((delete_sublist cond tab).map key)

theorem delete_keys {db : Db} (h : Keys db) (d : Delete) : Keys (delete db d) := by
  obtain ⟨⟨hta, htt⟩, had, hdd⟩ := (foreignKeys_iff db).1 h.foreign
  cases d with
  | trades cond =>
    have hsub := cascade_sublist TradeAgent.tradeSnomed (gone Trade.snomed cond db.trades) db.tradesAgents
    refine ⟨map_delete h.tradesPkey cond, h.agentsPkey, h.diseasesPkey, h.tradesAgentsPkey.sublist hsub,
      h.agentsDiseasesPkey, ?_⟩
    exact (foreignKeys_iff _).2 ⟨⟨refers_sublist _ _ hta hsub, refers_delete _ _ htt⟩, had, hdd⟩
  | agents cond =>
    have hta' := cascade_sublist TradeAgent.agentSnomed (gone Agent.snomed cond db.agents) db.tradesAgents
    have had' := cascade_sublist AgentDisease.agentSnomed (gone Agent.snomed cond db.agents) db.agentsDiseases
    refine ⟨h.tradesPkey, map_delete h.agentsPkey cond, h.diseasesPkey, h.tradesAgentsPkey.sublist hta',
      h.agentsDiseasesPkey.sublist had', ?_⟩
    exact (foreignKeys_iff _).2 ⟨⟨refers_delete _ _ hta, refers_sublist _ _ htt hta'⟩, refers_delete _ _ had,
      refers_sublist _ _ hdd had'⟩
  | diseases cond =>
    have hsub := cascade_sublist AgentDisease.diseaseSnomed (gone Disease.snomed cond db.diseases) db.agentsDiseases
    refine ⟨h.tradesPkey, h.agentsPkey, map_delete h.diseasesPkey cond, h.tradesAgentsPkey,
      h.agentsDiseasesPkey.sublist hsub, ?_⟩
    exact (foreignKeys_iff _).2 ⟨⟨hta, htt⟩, refers_sublist _ _ had hsub, refers_delete _ _ hdd⟩
  | tradesAgents cond =>
    have hsub := delete_sublist cond db.tradesAgents
    refine ⟨h.tradesPkey, h.agentsPkey, h.diseasesPkey, h.tradesAgentsPkey.sublist hsub, h.agentsDiseasesPkey, ?_⟩
    exact (foreignKeys_iff _).2 ⟨⟨refers_sublist _ _ hta hsub, refers_sublist _ _ htt hsub⟩, had, hdd⟩
  | agentsDiseases cond =>
    have hsub := delete_sublist cond db.agentsDiseases
    refine ⟨h.tradesPkey, h.agentsPkey, h.diseasesPkey, h.tradesAgentsPkey, h.agentsDiseasesPkey.sublist hsub, ?_⟩
    exact (foreignKeys_iff _).2 ⟨⟨hta, htt⟩, refers_sublist _ _ had hsub, refers_sublist _ _ hdd hsub⟩

theorem step_keys (db : Db) (o : Op) (h : Keys db) : Keys (step db o) := by
  unfold step
  cases o with
  | write o => exact Prevalence.step_keys db o h
  | delete d => exact delete_keys h d
  | tradesAgents d =>
    simp only [exec]
    split
    · exact h
    · rename_i tab ht
      split_ifs with hf
      · have hnodup := exec_keys id (fun _ => true) db.tradesAgents tab d (by simpa using h.tradesAgentsPkey) ht
        exact { h with tradesAgentsPkey := by simpa using hnodup, foreign := hf }
      · exact h
  | agentsDiseases d =>
    simp only [exec]
    split
    · exact h
    · rename_i tab ht
      split_ifs with hf
      · have hnodup := exec_keys id (fun _ => true) db.agentsDiseases tab d (by simpa using h.agentsDiseasesPkey) ht
        exact { h with agentsDiseasesPkey := by simpa using hnodup, foreign := hf }
      · exact h

/-- the keys hold in every state that statements reach from the empty tables -/
theorem reached_keys (ops : List Op) : Keys (run step empty ops) := run_inv step_keys empty ops keys_empty

/-! ## INSERT and COPY -/

/-- rows for one of the tables -/
inductive Rows where
  | trades (rows : List Trade)
  | agents (rows : List Agent)
  | diseases (rows : List Disease)
  | tradesAgents (rows : List TradeAgent)
  | agentsDiseases (rows : List AgentDisease)

/-- the rows are of the types of their columns -/
def Rows.Typed : Rows → Prop
  | .trades rows => ∀ r ∈ rows, tradeColumns.valid r = true
  | .agents rows => ∀ r ∈ rows, agentColumns.valid r = true
  | .diseases rows => ∀ r ∈ rows, diseaseColumns.valid r = true
  | .tradesAgents rows => ∀ r ∈ rows, tradeAgentColumns.valid r = true
  | .agentsDiseases rows => ∀ r ∈ rows, agentDiseaseColumns.valid r = true

/-- COPY of the rows; INSERT does the same -/
def Rows.copy : Rows → Op
  | .trades rows => .write (.trades (.copy rows))
  | .agents rows => .write (.agents (.copy rows))
  | .diseases rows => .write (.diseases (.copy rows))
  | .tradesAgents rows => .tradesAgents (.copy rows)
  | .agentsDiseases rows => .agentsDiseases (.copy rows)

def append (db : Db) : Rows → Db
  | .trades rows => { db with trades := db.trades ++ rows }
  | .agents rows => { db with agents := db.agents ++ rows }
  | .diseases rows => { db with diseases := db.diseases ++ rows }
  | .tradesAgents rows => { db with tradesAgents := db.tradesAgents ++ rows }
  | .agentsDiseases rows => { db with agentsDiseases := db.agentsDiseases ++ rows }

/-- a COPY into a keyed table whose column check accepts every value -/
theorem copy_iff {R K : Type} [DecidableEq K] {key : R → K} {ok : R → Bool} {tab rows tab' : List R}
    (hok : ∀ r, ok r = true) (hk : (tab.map key).Nodup) :
    Dml.exec key ok tab (.copy rows) = some tab' ↔ tab' = tab ++ rows ∧ ((tab ++ rows).map key).Nodup := by
  constructor
  · intro h
    obtain ⟨rfl, -⟩ := insertRows_eq key ok tab rows tab' h
    exact ⟨rfl, insertRows_keys key ok tab rows _ hk h⟩
  · rintro ⟨rfl, hn⟩
    obtain ⟨tab', h⟩ := (insertRows_iff key ok tab rows hk).2 ⟨fun r _ => hok r, hn⟩
    obtain ⟨rfl, -⟩ := insertRows_eq key ok tab rows tab' h
    exact h

/-- the two checks of a statement: the keys of its table, and the foreign keys -/
theorem checked_iff {R K : Type} [DecidableEq K] {key : R → K} {ok : R → Bool} {tab rows : List R} {db' : Db}
    {result : Option Db} (put : List R → Db) (hok : ∀ r, ok r = true) (hk : (tab.map key).Nodup)
    (hresult : result = (Dml.exec key ok tab (.copy rows)).bind fun tab' =>
      if ForeignKeys (put tab') then some (put tab') else none) :
    result = some db' ↔ db' = put (tab ++ rows) ∧ ((tab ++ rows).map key).Nodup ∧ ForeignKeys (put (tab ++ rows)) := by
  rw [hresult]
  constructor
  · intro h
    obtain ⟨tab', htab, h⟩ := Option.bind_eq_some_iff.1 h
    obtain ⟨rfl, hn⟩ := (copy_iff hok hk).1 htab
    split_ifs at h with hf
    exact ⟨(Option.some.inj h).symm, hn, hf⟩
  · intro ⟨hdb, hn, hf⟩
    rw [(copy_iff hok hk).2 ⟨rfl, hn⟩, Option.bind_some, if_pos hf, hdb]

/-- a statement that adds rows is accepted iff the tables with the rows satisfy the keys, and then leaves them -/
theorem insert_iff {db db' : Db} (h : Keys db) (r : Rows) :
    exec db r.copy = some db' ↔ db' = append db r ∧ Keys (append db r) := by
  cases r with
  | trades rows =>
    have hresult : exec db (Rows.trades rows).copy =
        (Dml.exec Trade.snomed (fun r => Prevalence.accepts r.prevalenceIndex) db.trades (.copy rows)).bind fun tab' =>
          if ForeignKeys { db with trades := tab' } then some { db with trades := tab' } else none := by
      simp only [exec, Rows.copy, Prevalence.exec]
      split <;> rename_i ht <;> rw [ht] <;> rfl
    rw [checked_iff _ (fun r => Prevalence.prevalenceRange_accepts _) h.tradesPkey hresult]
    refine and_congr_right fun _ => ⟨fun hc => ?_, fun hc => ⟨hc.tradesPkey, hc.foreign⟩⟩
    exact { h with tradesPkey := hc.1, foreign := hc.2 }
  | agents rows =>
    have hresult : exec db (Rows.agents rows).copy =
        (Dml.exec Agent.snomed (fun r => Prevalence.accepts r.prevalenceIndex) db.agents (.copy rows)).bind fun tab' =>
          if ForeignKeys { db with agents := tab' } then some { db with agents := tab' } else none := by
      simp only [exec, Rows.copy, Prevalence.exec]
      split <;> rename_i ht <;> rw [ht] <;> rfl
    rw [checked_iff _ (fun r => Prevalence.prevalenceRange_accepts _) h.agentsPkey hresult]
    refine and_congr_right fun _ => ⟨fun hc => ?_, fun hc => ⟨hc.agentsPkey, hc.foreign⟩⟩
    exact { h with agentsPkey := hc.1, foreign := hc.2 }
  | diseases rows =>
    have hresult : exec db (Rows.diseases rows).copy =
        (Dml.exec Disease.snomed (fun r => Prevalence.accepts r.yellowCardOrder) db.diseases (.copy rows)).bind
          fun tab' => if ForeignKeys { db with diseases := tab' } then some { db with diseases := tab' } else none := by
      simp only [exec, Rows.copy, Prevalence.exec]
      split <;> rename_i ht <;> rw [ht] <;> rfl
    rw [checked_iff _ (fun r => Prevalence.prevalenceRange_accepts _) h.diseasesPkey hresult]
    refine and_congr_right fun _ => ⟨fun hc => ?_, fun hc => ⟨hc.diseasesPkey, hc.foreign⟩⟩
    exact { h with diseasesPkey := hc.1, foreign := hc.2 }
  | tradesAgents rows =>
    have hresult : exec db (Rows.tradesAgents rows).copy =
        (Dml.exec id (fun _ => true) db.tradesAgents (.copy rows)).bind fun tab' =>
          if ForeignKeys { db with tradesAgents := tab' } then some { db with tradesAgents := tab' } else none := by
      simp only [exec, Rows.copy]
      split <;> rename_i ht <;> rw [ht] <;> rfl
    rw [checked_iff _ (fun r => rfl) (by simpa using h.tradesAgentsPkey) hresult, List.map_id]
    refine and_congr_right fun _ => ⟨fun hc => ?_, fun hc => ⟨hc.tradesAgentsPkey, hc.foreign⟩⟩
    exact { h with tradesAgentsPkey := hc.1, foreign := hc.2 }
  | agentsDiseases rows =>
    have hresult : exec db (Rows.agentsDiseases rows).copy =
        (Dml.exec id (fun _ => true) db.agentsDiseases (.copy rows)).bind fun tab' =>
          if ForeignKeys { db with agentsDiseases := tab' } then some { db with agentsDiseases := tab' } else none := by
      simp only [exec, Rows.copy]
      split <;> rename_i ht <;> rw [ht] <;> rfl
    rw [checked_iff _ (fun r => rfl) (by simpa using h.agentsDiseasesPkey) hresult, List.map_id]
    refine and_congr_right fun _ => ⟨fun hc => ?_, fun hc => ⟨hc.agentsDiseasesPkey, hc.foreign⟩⟩
    exact { h with agentsDiseasesPkey := hc.1, foreign := hc.2 }

/-- **The keys hold in every state.** After any INSERT, COPY, UPDATE and DELETE statements on the five tables, accepted
or refused, the primary keys and the foreign keys hold; the next COPY, of rows of its table, is accepted iff they still
hold with its rows, and then adds exactly these; a DELETE is always accepted. -/
theorem keys_in_every_state (ops : List Op) :
    Keys (run step empty ops) ∧
    (∀ r : Rows, r.Typed → ∀ db', exec (run step empty ops) r.copy = some db' ↔
      db' = append (run step empty ops) r ∧ Keys (append (run step empty ops) r)) ∧
    ∀ d, exec (run step empty ops) (.delete d) = some (delete (run step empty ops) d) ∧
      Keys (delete (run step empty ops) d) := by
  have hk := reached_keys ops
  exact ⟨hk, fun r _ db' => insert_iff hk r, fun d => ⟨rfl, delete_keys hk d⟩⟩

/-- a link to an agent that is stored and a trade that is not -/
theorem keys_in_every_state_sample : ¬ ∃ db', exec (run step empty [.write (.agents (.insert [Prevalence.agent9]))])
    (Rows.tradesAgents [⟨1, 3⟩]).copy = some db' := by
  intro h
  obtain ⟨db', hcopy⟩ := h
  have htyped : (Rows.tradesAgents [⟨1, 3⟩]).Typed := List.forall_mem_singleton.2 (by decide)
  have hkeys := (((keys_in_every_state [.write (.agents (.insert [Prevalence.agent9]))]).2.1
    (.tradesAgents [⟨1, 3⟩]) htyped db').1 hcopy).2
  exact absurd hkeys.foreign (by decide)

end IconSetup.Statements
