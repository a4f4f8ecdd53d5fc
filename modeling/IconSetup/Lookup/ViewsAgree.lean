/-
The two lookup views agree: immunization_lookups shows the same (agent, trade) JSON pairs as retrieval_lookups
restricted to the agents in the user view.

The views build their objects by separate expressions, group by different lists, and one of them removes duplicates.
Nothing fixes the physical order in which either view scans the tables, so the two views are taken over two states
that hold the same rows in any order; the diseases of an agent may then come in a different order, and are compared
as bags.
- `agentEq_of_sameRows`: the agent objects of the two views agree on every key, 'diseases' up to order.
- `retrieval_inUserView`: restricting retrieval_lookups by the agent of the row restricts its keys by the agent's flag.
- `lookups_agree`: the bags of pairs are equal up to that equality.
-/
import Mathlib.Tactic
import IconSetup.Lookup.Views

namespace IconSetup.ViewsAgree

open IconSetup.Ternary IconSetup.Query IconSetup.Schema IconSetup.Json IconSetup.Views

/-! ## Equality of agent objects -/

/-- both null, or two arrays with the same elements regardless of order -/
inductive DiseasesEq : Option Json → Option Json → Prop where
  | null : DiseasesEq (some .null) (some .null)
  | arr {xs ys : List Json} : xs.Perm ys → DiseasesEq (some (.arr xs)) (some (.arr ys))

/-- equal on every key, and on 'diseases' up to order -/
def AgentEq (x y : Json) : Prop :=
  (∀ key, key ≠ "diseases" → x.get key = y.get key) ∧ DiseasesEq (x.get "diseases") (y.get "diseases")

def PairEq (p q : Json × Option Json) : Prop := AgentEq p.1 q.1 ∧ p.2 = q.2

theorem diseasesEq_of_perm {xs ys : List Json} (h : xs.Perm ys) :
    DiseasesEq (some (ofArray (arrayAgg xs))) (some (ofArray (arrayAgg ys))) := by
  cases xs with
  | nil => rw [List.nil_perm.1 h]; exact .null
  | cons x xs =>
    cases ys with
    | nil => exact absurd h.eq_nil (List.cons_ne_nil x xs)
    | cons y ys => exact .arr h

theorem get_immunizationAgent_other (a : Agent) (ds ds' : Json) (key : String) (h : key ≠ "diseases") :
    (immunizationAgent a ds).get key = (immunizationAgent a ds').get key := by
  simp [immunizationAgent, jsonbBuildObject, get_jsonb_obj, lookup_cons_eq, h]

/-! ## Two states with the same rows -/

section
variable {db db' : Db}

theorem diseasesOf_perm (hs : SameRows db db') (a : Agent) : (diseasesOf db a).Perm (diseasesOf db' a) := by
  have hlink : ∀ d : Disease, decide ((⟨a.snomed, d.snomed⟩ : AgentDisease) ∈ db'.agentsDiseases) =
      decide ((⟨a.snomed, d.snomed⟩ : AgentDisease) ∈ db.agentsDiseases) :=
    fun d => decide_eq_decide.2 hs.agentsDiseases.mem_iff.symm
  simp only [diseasesOf, hlink]
  exact hs.diseases.filter _

theorem agentEq_of_sameRows (hs : SameRows db db') (a : Agent) :
    AgentEq (immunizationAgent a (diseasesValue immunizationDisease (diseasesOf db a)))
      (retrievalAgent a (diseasesValue retrievalDisease (diseasesOf db' a))) := by
  rw [retrievalAgent_eq, retrievalDisease_eq]
  refine ⟨fun key h => get_immunizationAgent_other a _ _ key h, ?_⟩
  simp only [get_immunizationAgent_diseases, jsonb_diseasesValue]
  exact diseasesEq_of_perm ((diseasesOf_perm hs a).map _)

theorem mem_retrievalKeys_sameRows (hs : SameRows db db') (k : LookupKey) :
    k ∈ retrievalKeys db ↔ k ∈ retrievalKeys db' := by
  obtain ⟨a, t⟩ := k
  cases t with
  | none => rw [mem_retrievalKeys_none, mem_retrievalKeys_none, hs.agents.mem_iff]
  | some t =>
    rw [mem_retrievalKeys_some, mem_retrievalKeys_some, hs.agents.mem_iff, hs.trades.mem_iff, hs.tradesAgents.mem_iff]

theorem keys_agree (hk : Keys db) (hs : SameRows db db') :
    (immunizationKeys db).Perm ((retrievalKeys db').filter fun k => userView k.1) := by
  refine (immunizationKeys_perm db).trans (List.Perm.filter _ ?_)
  exact (List.perm_ext_iff_of_nodup (nodup_retrievalKeys hk) (nodup_retrievalKeys (hs.keys hk))).2
    (mem_retrievalKeys_sameRows hs)

end

/-! ## The agreement -/

/-- the row's agent has is_user_view = true -/
def inUserView (db : Db) (r : RetrievalRow) : Bool :=
  db.agents.any fun a => decide (r.agent.get "snomed" = some (.str (toString a.snomed))) && userView a

theorem mem_retrievalKeys_agent {db : Db} {k : LookupKey} (h : k ∈ retrievalKeys db) : k.1 ∈ db.agents := by
  obtain ⟨a, _ | t⟩ := k
  · exact mem_retrievalKeys_none.1 h
  · exact (mem_retrievalKeys_some.1 h).1

/-- the agent in a row's JSON is the agent of its key, so the restriction is one on keys -/
theorem inUserView_rowOf {db : Db} (hk : Keys db) {k : LookupKey} (h : k ∈ retrievalKeys db) :
    inUserView db (retrievalRowOf db k) = userView k.1 := by
  have ha := mem_retrievalKeys_agent h
  rw [Bool.eq_iff_iff, inUserView, List.any_eq_true]
  simp only [retrievalRowOf, retrievalAgent_eq, get_immunizationAgent_snomed, Bool.and_eq_true, decide_eq_true_eq,
    Option.some.injEq, Json.str.injEq, toString_int_inj]
  constructor
  · rintro ⟨a, ha', he, hu⟩; rwa [eq_of_key hk.agentsPkey ha ha' he]
  · intro hu; exact ⟨k.1, ha, rfl, hu⟩

theorem retrieval_inUserView {db : Db} (hk : Keys db) : ((retrievalLookups db).filter (inUserView db)).Perm
    (((retrievalKeys db).filter fun k => userView k.1).map (retrievalRowOf db)) := by
  refine ((retrieval_perm hk).filter _).trans (List.Perm.of_eq ?_)
  rw [List.filter_map]
  congr 1
  exact List.filter_congr fun k h => inUserView_rowOf hk h

/-- **The two lookup views agree.** The (agent, trade) pairs of immunization_lookups are, one by one and up to the
order of an agent's diseases, those of the rows of retrieval_lookups whose agent is in the user view. -/
theorem lookups_agree (loc : DbLocale) (db db' : Db) (hk : Keys db) (hs : SameRows db db') :
    ∃ rs : List RetrievalRow, rs.Perm ((retrievalLookups db').filter (inUserView db')) ∧
      List.Forall₂ PairEq ((immunizationLookups loc db).map fun r => (r.agent, r.trade))
        (rs.map fun r => (r.agent, r.trade)) := by
  obtain ⟨ks, hks, he⟩ := exists_map_of_perm ((orderBy_perm (immunizationLe loc) _).trans (immunization_perm loc hk))
  refine ⟨ks.map (retrievalRowOf db'), ?_, ?_⟩
  · exact ((hks.trans (keys_agree hk hs)).map _).trans (retrieval_inUserView (hs.keys hk)).symm
  · rw [immunizationLookups, he]
    simp only [List.map_map, List.forall₂_map_left_iff, List.forall₂_map_right_iff]
    refine List.forall₂_same.2 fun k _ => ⟨agentEq_of_sameRows hs k.1, ?_⟩
    simp only [Function.comp, immunizationRowOf, immunizationSelect, retrievalRowOf, retrievalTrade_eq]

/-- the sample state with its tables stored the other way round -/
def sampleDb' : Db where
  trades := sampleDb.trades.reverse
  agents := sampleDb.agents.reverse
  diseases := sampleDb.diseases.reverse
  tradesAgents := sampleDb.tradesAgents.reverse
  agentsDiseases := sampleDb.agentsDiseases.reverse

theorem sampleDb_sameRows : SameRows sampleDb sampleDb' :=
  ⟨(List.reverse_perm _).symm, (List.reverse_perm _).symm, (List.reverse_perm _).symm, (List.reverse_perm _).symm,
    (List.reverse_perm _).symm⟩

theorem lookups_agree_sample :
    ∃ rs : List RetrievalRow, rs.Perm ((retrievalLookups sampleDb').filter (inUserView sampleDb')) ∧
      List.Forall₂ PairEq ((immunizationLookups cLocale sampleDb).map fun r => (r.agent, r.trade))
        (rs.map fun r => (r.agent, r.trade)) :=
  lookups_agree cLocale sampleDb sampleDb' sampleDb_keys sampleDb_sameRows

end IconSetup.ViewsAgree
