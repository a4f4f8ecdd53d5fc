/-
How many rows of retrieval_lookups and lot_lookups carry one snomed code.

The codes of agents and of trades are two key spaces, and trades_agents links a trade with any number of agents, so a
code alone names a row only where these do not meet.

- `agentTrades_perm`: the joined pairs of agents and trades are the rows of trades_agents, one for one.
- `retrieval_code`, `lot_code`: the number of rows with a code, counted in the tables.
- `retrieval_answers`, `lot_answers`: which agents and trades these rows are for.
- `code_rows`: both, and each view has at most one row with a code iff the tables do not make it ambiguous.
- `code_not_unique`: a trade of two agents, and a code that an agent and a trade share.
-/
import Mathlib.Tactic
import IconSetup.Lookup.Views
import IconSetup.Lookup.LotLookups

namespace IconSetup.CodeLookups

open IconSetup.Query IconSetup.Schema IconSetup.Json IconSetup.Views IconSetup.LotLookups
open IconSetup.Loaders (Lot)

/-! ## Counting rows by code -/

section
variable {db : Db}

/-- the foreign keys give every link its agent and its trade, and the primary keys give it one of each -/
theorem agentTrades_perm (hk : Keys db) : ((agentTrades db).map fun p => p.1.2).Perm db.tradesAgents := by
  have hlink : ∀ p ∈ agentTrades db, p.1.2 = ⟨p.1.1.snomed, p.2.snomed⟩ := fun p hp => (mem_agentTrades.1 hp).2.2.2
  have hnodup : ((agentTrades db).map fun p => p.1.2).Nodup := by
    refine List.Nodup.of_map (fun ta : TradeAgent => (ta.agentSnomed, ta.tradeSnomed)) ?_
    rw [List.map_map]
    have hcodes : (agentTrades db).map ((fun ta : TradeAgent => (ta.agentSnomed, ta.tradeSnomed)) ∘ fun p => p.1.2) =
        (agentTrades db).map fun p => (p.1.1.snomed, p.2.snomed) := by
      apply List.map_congr_left
      intro p hp
      simp only [Function.comp, hlink p hp]
    rw [hcodes]
    exact nodup_agentTrades hk
  apply (List.perm_ext_iff_of_nodup hnodup hk.tradesAgentsPkey).2
  intro ta
  rw [List.mem_map]
  constructor
  · rintro ⟨p, hp, rfl⟩; exact (mem_agentTrades.1 hp).2.1
  · intro hta
    obtain ⟨hagent, htrade⟩ := hk.foreign.1 ta hta
    obtain ⟨a, ha, hac⟩ := List.mem_map.1 hagent
    obtain ⟨t, ht, htc⟩ := List.mem_map.1 htrade
    have heq : ta = ⟨a.snomed, t.snomed⟩ := by rw [hac, htc]
    exact ⟨((a, ta), t), mem_agentTrades.2 ⟨ha, hta, ht, heq⟩, rfl⟩

/-- one row for the agent with the code, and one for each agent linked with the trade of the code -/
theorem retrieval_code (hk : Keys db) (code : ℤ) :
    (retrievalLookups db).countP (fun r => decide (r.snomed = toString code)) =
      db.agents.countP (fun a => decide (a.snomed = code)) +
        db.tradesAgents.countP fun ta => decide (ta.tradeSnomed = code) := by
  have hlinks : (agentTrades db).countP (fun p => decide (p.2.snomed = code)) =
      db.tradesAgents.countP fun ta => decide (ta.tradeSnomed = code) := by
    rw [← (agentTrades_perm hk).countP_eq, List.countP_map]
    apply List.countP_congr
    intro p hp
    simp only [Function.comp, (mem_agentTrades.1 hp).2.2.2, decide_eq_true_eq]
  rw [(retrieval_perm hk).countP_eq, List.countP_map, retrievalKeys, List.countP_append, List.countP_map,
    List.countP_map, ← hlinks]
  simp only [Function.comp_def, retrievalRowOf, toString_int_inj, Option.map_none, Option.getD_none, Option.map_some,
    Option.getD_some]

/-- one row for the agent with the code, and one for the trade with the code -/
theorem lot_code (dateText : ℤ → String) (lots : List Lot) (hk : Keys db) (code : ℤ) :
    (lotLookups dateText db lots).countP (fun r => decide (r.snomed = toString code)) =
      db.agents.countP (fun a => decide (a.snomed = code)) + db.trades.countP fun t => decide (t.snomed = code) := by
  rw [(lotLookups_perm dateText lots hk).countP_eq, List.countP_map, lotKeys, List.countP_append, List.countP_map,
    List.countP_map]
  simp only [Function.comp_def, lotRowOf, LotKey.snomed, toString_int_inj]

/-- a primary key counts a code once or not at all -/
theorem countP_key {R : Type} {key : R → ℤ} {tab : List R} (hk : (tab.map key).Nodup) (code : ℤ) :
    tab.countP (fun r => decide (key r = code)) = if code ∈ tab.map key then 1 else 0 := by
  rw [← hk.count, List.count_eq_countP, List.countP_map]
  rfl

end

/-! ## When a code is unambiguous -/

/-- two rows with one property are one row, so there is at most one -/
theorem countP_le_one {R : Type} {tab : List R} {p : R → Bool} (hn : tab.Nodup) :
    tab.countP p ≤ 1 ↔ ∀ x ∈ tab, ∀ y ∈ tab, p x = true → p y = true → x = y := by
  have hmem : ∀ x, x ∈ tab.filter p ↔ x ∈ tab ∧ p x = true := fun x => List.mem_filter
  have hf : (tab.filter p).Nodup := hn.filter p
  rw [List.countP_eq_length_filter]
  generalize tab.filter p = l at hmem hf
  constructor
  · intro h x hx y hy hpx hpy
    have hx' := (hmem x).2 ⟨hx, hpx⟩
    have hy' := (hmem y).2 ⟨hy, hpy⟩
    obtain ⟨z, rfl⟩ := List.length_eq_one_iff.1 (Nat.le_antisymm h (List.length_pos_of_mem hx'))
    rw [List.mem_singleton.1 hx', List.mem_singleton.1 hy']
  · intro h
    match l with
    | [] => exact Nat.zero_le 1
    | [x] => exact Nat.le_refl 1
    | x :: y :: l =>
      have hx := (hmem x).1 List.mem_cons_self
      have hy := (hmem y).1 (List.mem_cons_of_mem x List.mem_cons_self)
      have hxy := h x hx.1 y hy.1 hx.2 hy.2
      exact absurd (hxy ▸ List.mem_cons_self) (List.nodup_cons.1 hf).1

theorem linked_once {db : Db} (hk : Keys db) (code : ℤ) :
    db.tradesAgents.countP (fun ta => decide (ta.tradeSnomed = code)) ≤ 1 ↔
      ∀ i j, (⟨i, code⟩ : TradeAgent) ∈ db.tradesAgents → (⟨j, code⟩ : TradeAgent) ∈ db.tradesAgents → i = j := by
  rw [countP_le_one hk.tradesAgentsPkey]
  constructor
  · intro h i j hi hj
    exact congrArg TradeAgent.agentSnomed (h _ hi _ hj (by simp) (by simp))
  · rintro h ⟨i, c⟩ hx ⟨j, d⟩ hy hc hd
    simp only [decide_eq_true_eq] at hc hd
    subst hc hd
    rw [h i j hx hy]

/-- no row of trades_agents names the trade -/
theorem linked_none (db : Db) (code : ℤ) : db.tradesAgents.countP (fun ta => decide (ta.tradeSnomed = code)) = 0 ↔
    ∀ i, (⟨i, code⟩ : TradeAgent) ∉ db.tradesAgents := by
  rw [List.countP_eq_zero]
  constructor
  · intro h i hi
    exact h _ hi (decide_eq_true rfl)
  · intro h ta hta hc
    have hcode : ta.tradeSnomed = code := of_decide_eq_true hc
    subst hcode
    exact h ta.agentSnomed hta

/-! ## The rows of a code -/

/-- the rows of a view that pass a test are those of the keys whose row does -/
theorem rows_of_keys {K R : Type} {view : List R} {keys : List K} {rowOf : K → R} (h : view.Perm (keys.map rowOf))
    (p : R → Bool) : ∃ ks : List K, ks.Perm (keys.filter fun k => p (rowOf k)) ∧ view.filter p = ks.map rowOf := by
  have hfilter := h.filter p
  rw [List.filter_map] at hfilter
  exact exists_map_of_perm hfilter

/-- one row for the agent that has the code, and one for each agent that is linked with the trade that has it -/
def RetrievalAnswers (db : Db) (code : ℤ) (rows : List RetrievalRow) : Prop :=
  ∃ ks : List LookupKey, ks.Nodup ∧ (∀ a, (a, none) ∈ ks ↔ a ∈ db.agents ∧ a.snomed = code) ∧
    (∀ a t, (a, some t) ∈ ks ↔ (a ∈ db.agents ∧ t ∈ db.trades ∧ (⟨a.snomed, t.snomed⟩ : TradeAgent) ∈ db.tradesAgents) ∧
      t.snomed = code) ∧
    List.Forall₂ (fun k r => ∃ ds, RetrievalShown k ds r) ks rows

/-- one row for the agent that has the code, and one for the trade that has it -/
def LotAnswers (dateText : ℤ → String) (db : Db) (lots : List Lot) (code : ℤ) (rows : List LotLookupRow) : Prop :=
  ∃ ks : List LotKey, ks.Nodup ∧ (∀ a, .agent a ∈ ks ↔ a ∈ db.agents ∧ a.snomed = code) ∧
    (∀ t, .trade t ∈ ks ↔ t ∈ db.trades ∧ t.snomed = code) ∧
    List.Forall₂ (fun k r => ∃ ls, LotRowFor dateText lots k ls r) ks rows

theorem retrieval_answers {db : Db} (hk : Keys db) (code : ℤ) :
    RetrievalAnswers db code ((retrievalLookups db).filter fun r => decide (r.snomed = toString code)) := by
  obtain ⟨ks, hks, he⟩ := rows_of_keys (retrieval_perm hk) fun r => decide (r.snomed = toString code)
  refine ⟨ks, hks.nodup_iff.2 ((nodup_retrievalKeys hk).filter _), fun a => ?_, fun a t => ?_, ?_⟩
  · rw [hks.mem_iff, List.mem_filter, mem_retrievalKeys_none]
    simp only [retrievalRowOf, Option.map_none, Option.getD_none, decide_eq_true_eq, toString_int_inj]
  · rw [hks.mem_iff, List.mem_filter, mem_retrievalKeys_some]
    simp only [retrievalRowOf, Option.map_some, Option.getD_some, decide_eq_true_eq, toString_int_inj]
  · rw [he, List.forall₂_map_right_iff]
    exact List.forall₂_same.2 fun k _ => ⟨diseasesOf db k.1, retrieval_shown k _⟩

theorem nodup_lotKeys {db : Db} (hk : Keys db) : (lotKeys db).Nodup := by
  refine List.nodup_append.2 ⟨?_, ?_, ?_⟩
  · exact (hk.agentsPkey.of_map _).map fun a b h => LotKey.agent.inj h
  · exact (hk.tradesPkey.of_map _).map fun a b h => LotKey.trade.inj h
  · intro k hagent k' htrade he
    obtain ⟨a, -, rfl⟩ := List.mem_map.1 hagent
    obtain ⟨t, -, rfl⟩ := List.mem_map.1 htrade
    cases he

theorem lot_answers (dateText : ℤ → String) {db : Db} (lots : List Lot) (hk : Keys db) (code : ℤ) :
    LotAnswers dateText db lots code
      ((lotLookups dateText db lots).filter fun r => decide (r.snomed = toString code)) := by
  obtain ⟨ks, hks, he⟩ := rows_of_keys (lotLookups_perm dateText lots hk) fun r => decide (r.snomed = toString code)
  refine ⟨ks, hks.nodup_iff.2 ((nodup_lotKeys hk).filter _), fun a => ?_, fun t => ?_, ?_⟩
  · rw [hks.mem_iff, List.mem_filter]
    simp [lotKeys, lotRowOf, LotKey.snomed]
  · rw [hks.mem_iff, List.mem_filter]
    simp [lotKeys, lotRowOf, LotKey.snomed]
  · rw [he, List.forall₂_map_right_iff]
    exact List.forall₂_same.2 fun k _ => ⟨lotsOf lots k, lotRowFor dateText lots k⟩

/-- **A code names as many lookup answers as the tables give it.** retrieval_lookups has a row for the agent with the
code and one for each agent of the trade with the code; lot_lookups has one for the agent and one for the trade. So
the code is unambiguous in retrieval_lookups iff no trade with it has two agents and no agent with it stands beside a
linked trade with it, and in lot_lookups iff it is not a code of both. -/
theorem code_rows (dateText : ℤ → String) (db : Db) (lots : List Lot) (hk : Keys db) (code : ℤ) :
    RetrievalAnswers db code ((retrievalLookups db).filter fun r => decide (r.snomed = toString code)) ∧
      LotAnswers dateText db lots code
        ((lotLookups dateText db lots).filter fun r => decide (r.snomed = toString code)) ∧
      (retrievalLookups db).countP (fun r => decide (r.snomed = toString code)) =
        (if code ∈ db.agents.map Agent.snomed then 1 else 0) +
          db.tradesAgents.countP (fun ta => decide (ta.tradeSnomed = code)) ∧
      ((lotLookups dateText db lots).countP (fun r => decide (r.snomed = toString code)) =
        (if code ∈ db.agents.map Agent.snomed then 1 else 0) + if code ∈ db.trades.map Trade.snomed then 1 else 0) ∧
      ((retrievalLookups db).countP (fun r => decide (r.snomed = toString code)) ≤ 1 ↔
        (∀ i j, (⟨i, code⟩ : TradeAgent) ∈ db.tradesAgents → (⟨j, code⟩ : TradeAgent) ∈ db.tradesAgents → i = j) ∧
          (code ∈ db.agents.map Agent.snomed → ∀ i, (⟨i, code⟩ : TradeAgent) ∉ db.tradesAgents)) ∧
      ((lotLookups dateText db lots).countP (fun r => decide (r.snomed = toString code)) ≤ 1 ↔
        ¬ (code ∈ db.agents.map Agent.snomed ∧ code ∈ db.trades.map Trade.snomed)) := by
  have hret := retrieval_code hk code
  have hlot := lot_code dateText lots hk code
  rw [countP_key hk.agentsPkey] at hret hlot
  rw [countP_key hk.tradesPkey] at hlot
  refine ⟨retrieval_answers hk code, lot_answers dateText lots hk code, hret, hlot, ?_, ?_⟩
  · rw [hret, ← linked_once hk, ← linked_none]
    by_cases hagent : code ∈ db.agents.map Agent.snomed
    · rw [if_pos hagent]
      simp only [hagent, true_imp_iff]
      omega
    · rw [if_neg hagent]
      simp only [hagent, false_imp_iff, and_true, Nat.zero_add]
  · rw [hlot]
    by_cases hagent : code ∈ db.agents.map Agent.snomed
    · by_cases htrade : code ∈ db.trades.map Trade.snomed
      · simp [hagent, htrade]
      · simp [hagent, htrade]
    · have htrade : (if code ∈ db.trades.map Trade.snomed then 1 else 0) ≤ 1 := by split_ifs <;> simp
      simpa [hagent] using htrade

theorem code_rows_sample : (retrievalLookups sampleDb).countP (fun r => decide (r.snomed = toString (10 : ℤ))) = 2 ∧
    (retrievalLookups sampleDb).countP (fun r => decide (r.snomed = toString (11 : ℤ))) = 1 := by
  have h10 := (code_rows toString sampleDb [] sampleDb_keys 10).2.2.1
  have h11 := (code_rows toString sampleDb [] sampleDb_keys 11).2.2.1
  exact ⟨h10.trans (by decide), h11.trans (by decide)⟩

/-- an agent and a trade with one code -/
def sharedCodeDb : Db where
  trades := [⟨10, none, none, none, none, none, none, none⟩]
  agents := [⟨10, none, none, none, none, none, none, none, none, none, none⟩]
  diseases := []
  tradesAgents := []
  agentsDiseases := []

theorem sharedCodeDb_keys : Keys sharedCodeDb := ⟨by decide, by decide, by decide, by decide, by decide, by decide⟩

/-- **A code does not name one answer.** The trade of two agents has two rows in retrieval_lookups, and a code of both
an agent and a trade two rows in lot_lookups. -/
theorem code_not_unique :
    (¬ ∀ (db : Db) (code : ℤ), Keys db →
      (retrievalLookups db).countP (fun r => decide (r.snomed = toString code)) ≤ 1) ∧
    ¬ ∀ (db : Db) (lots : List Lot) (code : ℤ), Keys db →
      (lotLookups toString db lots).countP (fun r => decide (r.snomed = toString code)) ≤ 1 := by
  constructor
  · intro h
    have h2 : (retrievalLookups sampleDb).countP (fun r => decide (r.snomed = toString (10 : ℤ))) = 2 :=
      (retrieval_code sampleDb_keys 10).trans (by decide)
    have h1 := h sampleDb 10 sampleDb_keys
    omega
  · intro h
    have h2 : (lotLookups toString sharedCodeDb []).countP (fun r => decide (r.snomed = toString (10 : ℤ))) = 2 :=
      (lot_code toString [] sharedCodeDb_keys 10).trans (by decide)
    have h1 := h sharedCodeDb [] 10 sharedCodeDb_keys
    omega

end IconSetup.CodeLookups
