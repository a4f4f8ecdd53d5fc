/-
The views immunization_lookups and retrieval_lookups as queries over the lookup tables.

Both views join agents (and, in one branch each, their trades) with the diseases of the agent, which multiplies rows,
group the rows back to one per agent or per (agent, trade), and put into the agent's JSON the diseases found by a
correlated subquery `d.snomed = ANY (array_agg(diseases.snomed))`; the array is {NULL} for an agent without diseases.
What the server's locale decides (lower, and the order of texts) is a parameter.

- `subselect_eq`: the correlated subquery finds exactly the diseases linked to the agent.
- `branch_perm`: a grouped branch has one row for each row of its base table, whatever the joins multiply.
- `immunization_perm`, `retrieval_perm`: the rows of each view, one for each key, up to order. UNION removes nothing,
  since the snomed codes in the JSON tell the rows apart.
- `immunization_shown`, `retrieval_shown`: what a row says about its agent, its trade and the diseases, key by key.
- `immunization_lookups_exact`: immunization_lookups is complete, duplicate-free and sorted, with exact diseases.
-/
import Mathlib.Tactic
import IconSetup.Core.Json
import IconSetup.Core.Query
import IconSetup.Lookup.Schema

namespace IconSetup.Views

open IconSetup.Ternary IconSetup.Query IconSetup.Schema IconSetup.Json

/-- what the database's locale fixes: lower, and the order in which texts sort -/
structure DbLocale where
  lower : String → String
  le : String → String → Bool
  preorders : Preorders le

/-! ## The common joins -/

section
variable {α : Type} (db : Db) (agent : α → Agent)

/-- `LEFT JOIN agents_diseases ON agents.snomed = agents_diseases.agent_snomed
LEFT JOIN diseases ON agents_diseases.disease_snomed = diseases.snomed`, with which every branch ends -/
def diseaseJoin (xs : List α) : List ((α × Option AgentDisease) × Option Disease) :=
  leftJoin (fun p d => eq3 (p.2.map AgentDisease.diseaseSnomed) (some d.snomed))
    (leftJoin (fun x ad => eq3 (some (agent x).snomed) (some ad.agentSnomed)) xs db.agentsDiseases) db.diseases

/-- the rows the two joins make of one row -/
def diseaseRows (x : α) : List ((α × Option AgentDisease) × Option Disease) :=
  (leftRows (fun x ad => eq3 (some (agent x).snomed) (some ad.agentSnomed)) db.agentsDiseases x).flatMap
    (leftRows (fun p d => eq3 (p.2.map AgentDisease.diseaseSnomed) (some d.snomed)) db.diseases)

end

/-- `agents JOIN trades_agents ON agents.snomed = trades_agents.agent_snomed
JOIN trades ON trades_agents.trade_snomed = trades.snomed` -/
def agentTrades (db : Db) : List ((Agent × TradeAgent) × Trade) :=
  innerJoin (fun p t => eq3 (some p.2.tradeSnomed) (some t.snomed))
    (innerJoin (fun a ta => eq3 (some a.snomed) (some ta.agentSnomed)) db.agents db.tradesAgents) db.trades

/-- `(SELECT array_agg(obj) FROM diseases AS d WHERE d.snomed = ANY (array_agg(diseases.snomed)))` as a JSON value;
`outer` holds diseases.snomed over the rows of the outer group -/
def diseasesSubselect (db : Db) (obj : Disease → Json) (outer : List (Option ℤ)) : Json :=
  ofArray (arrayAgg ((db.diseases.filter fun d => holds (eqAny (some d.snomed) (arrayAgg outer))).map obj))

/-! ## immunization_lookups -/

def immunizationDisease (d : Disease) : Json :=
  jsonBuildObject [("snomed", ofInt (some d.snomed)), ("yellowCardOrder", ofInt (d.yellowCardOrder.map Int16.toInt)),
    ("longName", jsonBuildObject [("en", ofText d.friendlyEnName), ("fr", ofText d.friendlyFrName)])]

def immunizationAgent (a : Agent) (diseases : Json) : Json :=
  jsonbBuildObject [("snomed", .str (toString a.snomed)),
    ("orderedDiseases", jsonbBuildObject [("en", ofText a.orderedDiseasesEn), ("fr", ofText a.orderedDiseasesFr)]),
    ("shortName", jsonbBuildObject [("en", ofText a.shortEnName), ("fr", ofText a.shortFrName)]),
    ("longName", jsonbBuildObject [("en", ofText a.longEnName), ("fr", ofText a.longFrName)]),
    ("prevalenceIndex", ofInt (a.prevalenceIndex.map Int16.toInt)), ("ontarioStartYear", ofInt a.ontarioStartYear),
    ("ontarioFinishYear", ofInt a.ontarioFinishYear), ("diseases", diseases)]

def immunizationTrade (t : Trade) : Json :=
  jsonbBuildObject [("snomed", .str (toString t.snomed)),
    ("longName", jsonBuildObject [("en", ofText t.friendlyEnName), ("fr", ofText t.friendlyFrName)]),
    ("manufacturer", ofText t.manufacturer), ("ontarioStartYear", ofInt t.ontarioStartYear),
    ("ontarioFinishYear", ofInt t.ontarioFinishYear), ("prevalenceIndex", ofInt (t.prevalenceIndex.map Int16.toInt)),
    ("panoramaName", ofText t.panoramaName)]

/-- a row of immunization_lookups -/
structure ImmunizationRow where
  agentLongEn : Option String
  agentLongFr : Option String
  agentShortEn : Option String
  agentShortFr : Option String
  agentOrderedDiseasesEn : Option String
  agentOrderedDiseasesFr : Option String
  tradeEn : Option String
  tradeFr : Option String
  agent : Json
  trade : Option Json
deriving DecidableEq, Repr

/-- a row of sub_table: prevalence_index, and the columns of the view -/
abbrev SubRow := Option Int16 × ImmunizationRow

/-- the SELECT list of both branches; the second has NULL for the trade -/
def immunizationSelect (loc : DbLocale) (a : Agent) (t : Option Trade) (diseases : Json) : SubRow :=
  (a.prevalenceIndex,
    { agentLongEn := a.longEnName.map loc.lower
      agentLongFr := a.longFrName.map loc.lower
      agentShortEn := a.shortEnName.map loc.lower
      agentShortFr := a.shortFrName.map loc.lower
      agentOrderedDiseasesEn := a.orderedDiseasesEn.map loc.lower
      agentOrderedDiseasesFr := a.orderedDiseasesFr.map loc.lower
      tradeEn := t.bind fun t => t.friendlyEnName.map loc.lower
      tradeFr := t.bind fun t => t.friendlyFrName.map loc.lower
      agent := immunizationAgent a diseases
      trade := t.map immunizationTrade })

def immunizationTrades (loc : DbLocale) (db : Db) : List SubRow :=
  selectGroups
    (fun r g => immunizationSelect loc r.1.1.1.1 (some r.1.1.2)
      (diseasesSubselect db immunizationDisease (g.map fun r => r.2.map Disease.snomed)))
    (groupBy
      (fun r => (r.1.1.1.1.prevalenceIndex, r.1.1.1.1.longEnName, r.1.1.1.1.longFrName, r.1.1.1.1.snomed, r.1.1.2.snomed))
      ((diseaseJoin db (fun p => p.1.1) (agentTrades db)).filter
        fun r => holds (eq3 r.1.1.1.1.isUserView (some true))))

def immunizationAgents (loc : DbLocale) (db : Db) : List SubRow :=
  selectGroups
    (fun r g => immunizationSelect loc r.1.1 none
      (diseasesSubselect db immunizationDisease (g.map fun r => r.2.map Disease.snomed)))
    (groupBy (fun r => r.1.1.snomed)
      ((diseaseJoin db id db.agents).filter fun r => holds (eq3 r.1.1.isUserView (some true))))

/-- `ORDER BY sub_table.prevalence_index, sub_table.agent_long_en, sub_table.agent_long_fr` -/
def immunizationLe (loc : DbLocale) : SubRow → SubRow → Bool :=
  thenBy (fun x y => nullsLast (fun a b => decide (a ≤ b)) (x.1.map Int16.toInt) (y.1.map Int16.toInt))
    (thenBy (fun x y => nullsLast loc.le x.2.agentLongEn y.2.agentLongEn)
      fun x y => nullsLast loc.le x.2.agentLongFr y.2.agentLongFr)

def immunizationLookups (loc : DbLocale) (db : Db) : List ImmunizationRow :=
  (orderBy (immunizationLe loc) (union (immunizationTrades loc db) (immunizationAgents loc db))).map Prod.snd

/-! ## retrieval_lookups -/

def retrievalDisease (d : Disease) : Json :=
  jsonBuildObject [("snomed", ofInt (some d.snomed)), ("yellowCardOrder", ofInt (d.yellowCardOrder.map Int16.toInt)),
    ("longName", jsonBuildObject [("en", ofText d.friendlyEnName), ("fr", ofText d.friendlyFrName)])]

def retrievalAgent (a : Agent) (diseases : Json) : Json :=
  jsonbBuildObject [("snomed", .str (toString a.snomed)),
    ("orderedDiseases", jsonbBuildObject [("en", ofText a.orderedDiseasesEn), ("fr", ofText a.orderedDiseasesFr)]),
    ("shortName", jsonbBuildObject [("en", ofText a.shortEnName), ("fr", ofText a.shortFrName)]),
    ("longName", jsonbBuildObject [("en", ofText a.longEnName), ("fr", ofText a.longFrName)]),
    ("prevalenceIndex", ofInt (a.prevalenceIndex.map Int16.toInt)), ("ontarioStartYear", ofInt a.ontarioStartYear),
    ("ontarioFinishYear", ofInt a.ontarioFinishYear), ("diseases", diseases)]

def retrievalTrade (t : Trade) : Json :=
  jsonbBuildObject [("snomed", .str (toString t.snomed)),
    ("longName", jsonBuildObject [("en", ofText t.friendlyEnName), ("fr", ofText t.friendlyFrName)]),
    ("manufacturer", ofText t.manufacturer), ("ontarioStartYear", ofInt t.ontarioStartYear),
    ("ontarioFinishYear", ofInt t.ontarioFinishYear), ("prevalenceIndex", ofInt (t.prevalenceIndex.map Int16.toInt)),
    ("panoramaName", ofText t.panoramaName)]

/-- a row of retrieval_lookups -/
structure RetrievalRow where
  snomed : String
  agent : Json
  trade : Option Json
deriving DecidableEq, Repr

def retrievalAgents (db : Db) : List RetrievalRow :=
  selectGroups
    (fun r g => ⟨toString r.1.1.snomed,
      retrievalAgent r.1.1 (diseasesSubselect db retrievalDisease (g.map fun r => r.2.map Disease.snomed)), none⟩)
    (groupBy (fun r => r.1.1.snomed) (diseaseJoin db id db.agents))

def retrievalTrades (db : Db) : List RetrievalRow :=
  selectGroups
    (fun r g => ⟨toString r.1.1.2.snomed,
      retrievalAgent r.1.1.1.1 (diseasesSubselect db retrievalDisease (g.map fun r => r.2.map Disease.snomed)),
      some (retrievalTrade r.1.1.2)⟩)
    (groupBy (fun r => (r.1.1.2.snomed, r.1.1.1.1.snomed)) (diseaseJoin db (fun p => p.1.1) (agentTrades db)))

def retrievalLookups (db : Db) : List RetrievalRow := unionAll (retrievalAgents db) (retrievalTrades db)

/-! ## What a branch computes -/

/-- the diseases linked to an agent in agents_diseases -/
def diseasesOf (db : Db) (a : Agent) : List Disease :=
  db.diseases.filter fun d => decide ((⟨a.snomed, d.snomed⟩ : AgentDisease) ∈ db.agentsDiseases)

theorem mem_diseasesOf {db : Db} {a : Agent} {d : Disease} :
    d ∈ diseasesOf db a ↔ d ∈ db.diseases ∧ (⟨a.snomed, d.snomed⟩ : AgentDisease) ∈ db.agentsDiseases := by
  simp [diseasesOf]

section
variable {α : Type} (db : Db) (agent : α → Agent)

theorem diseaseJoin_eq (xs : List α) : diseaseJoin db agent xs = xs.flatMap (diseaseRows db agent) := by
  simp only [diseaseJoin, leftJoin, List.flatMap_assoc]; rfl

theorem diseaseRows_ne_nil (x : α) : diseaseRows db agent x ≠ [] :=
  flatMap_ne_nil (leftRows_ne_nil _ _ _) fun _ _ => leftRows_ne_nil _ _ _

theorem diseaseRows_base {x : α} {r : (α × Option AgentDisease) × Option Disease} (hr : r ∈ diseaseRows db agent x) :
    r.1.1 = x := by
  obtain ⟨p, hp, hr⟩ := List.mem_flatMap.1 hr
  rw [(mem_leftRows.1 hr).1, (mem_leftRows.1 hp).1]

/-- the outer aggregate holds the code of every disease linked to the agent, and no other code -/
theorem mem_outer (x : α) (d : Disease) (hd : d ∈ db.diseases) :
    some d.snomed ∈ (diseaseRows db agent x).map (fun r => r.2.map Disease.snomed) ↔
      (⟨(agent x).snomed, d.snomed⟩ : AgentDisease) ∈ db.agentsDiseases := by
  simp only [List.mem_map, diseaseRows, List.mem_flatMap]
  constructor
  · rintro ⟨r, ⟨p, hp, hr⟩, he⟩
    obtain ⟨-, ⟨d', -, hon, h2⟩ | ⟨h2, -⟩⟩ := mem_leftRows.1 hr
    · obtain ⟨k, hk, hk'⟩ := (holds_eq3 _ _).1 hon
      obtain ⟨hx, ⟨ad, had, hon', hp2⟩ | ⟨hp2, -⟩⟩ := mem_leftRows.1 hp
      · rw [holds_eq3] at hon'
        obtain ⟨k', h5, h6⟩ := hon'
        rw [h2] at he
        simp only [hp2, Option.map_some, Option.some.injEq] at he hk hk' h5 h6
        obtain ⟨a1, a2⟩ := ad
        simp only at hk h6
        rw [h5, ← h6, ← he, hk', ← hk]
        exact had
      · rw [hp2] at hk; simp at hk
    · rw [h2] at he; simp at he
  · intro h
    refine ⟨((x, some ⟨(agent x).snomed, d.snomed⟩), some d), ⟨(x, some ⟨(agent x).snomed, d.snomed⟩), ?_, ?_⟩, rfl⟩
    · exact mem_leftRows.2 ⟨rfl, Or.inl ⟨_, h, by simp, rfl⟩⟩
    · exact mem_leftRows.2 ⟨rfl, Or.inl ⟨d, hd, by simp, rfl⟩⟩

theorem arrayAgg_of_ne_nil {β : Type} {l : List β} (h : l ≠ []) : arrayAgg l = some l := by
  obtain ⟨x, xs, rfl⟩ := List.exists_cons_of_ne_nil h; rfl

/-- **The correlated subquery finds exactly the linked diseases.** -/
theorem subselect_eq (obj : Disease → Json) (x : α) :
    diseasesSubselect db obj ((diseaseRows db agent x).map fun r => r.2.map Disease.snomed) =
      ofArray (arrayAgg ((diseasesOf db (agent x)).map obj)) := by
  have hne : (diseaseRows db agent x).map (fun r => r.2.map Disease.snomed) ≠ [] := by
    simpa using diseaseRows_ne_nil db agent x
  have hfilter : db.diseases.filter (fun d => holds (eqAny (some d.snomed)
      (arrayAgg ((diseaseRows db agent x).map fun r => r.2.map Disease.snomed)))) = diseasesOf db (agent x) := by
    apply List.filter_congr
    intro d hd
    rw [arrayAgg_of_ne_nil hne, Bool.eq_iff_iff, holds_eqAny, mem_outer db agent x d hd, decide_eq_true_eq]
  rw [diseasesSubselect, hfilter]

/-- **A grouped branch has one row for each row of its base table.** -/
theorem branch_perm {K ρ : Type} [DecidableEq K] {xs : List α} (keyOf : α → K) (out : α → ρ)
    {key : (α × Option AgentDisease) × Option Disease → K}
    {sel : (α × Option AgentDisease) × Option Disease → List ((α × Option AgentDisease) × Option Disease) → ρ}
    (hk : (xs.map keyOf).Nodup) (hkey : ∀ r, key r = keyOf r.1.1)
    (hsel : ∀ r, sel r (diseaseRows db agent r.1.1) = out r.1.1) :
    (selectGroups sel (groupBy key (diseaseJoin db agent xs))).Perm (xs.map out) := by
  rw [diseaseJoin_eq]
  refine select_groupBy hk (fun x _ => diseaseRows_ne_nil db agent x) (fun x _ r hr => ?_) fun x _ r hr => ?_
  · rw [hkey, diseaseRows_base db agent hr]
  · have := hsel r
    rwa [diseaseRows_base db agent hr] at this

theorem filter_diseaseJoin {xs : List α} {p : (α × Option AgentDisease) × Option Disease → Bool} {q : α → Bool}
    (h : ∀ r, p r = q r.1.1) : (diseaseJoin db agent xs).filter p = diseaseJoin db agent (xs.filter q) := by
  rw [diseaseJoin_eq, diseaseJoin_eq]
  exact filter_flatMap_of fun x _ r hr => by rw [h, diseaseRows_base db agent hr]

end

/-! ## The rows of the views -/

theorem mem_agentTrades {db : Db} {p : (Agent × TradeAgent) × Trade} :
    p ∈ agentTrades db ↔ p.1.1 ∈ db.agents ∧ p.1.2 ∈ db.tradesAgents ∧ p.2 ∈ db.trades ∧
      p.1.2 = ⟨p.1.1.snomed, p.2.snomed⟩ := by
  obtain ⟨⟨a, ⟨i, j⟩⟩, t⟩ := p
  simp only [agentTrades, mem_innerJoin, holds_eq3, Option.some.injEq, exists_eq_left', TradeAgent.mk.injEq]
  constructor
  · rintro ⟨⟨ha, hta, h1⟩, ht, h2⟩; exact ⟨ha, hta, ht, h1, h2.symm⟩
  · rintro ⟨ha, hta, ht, h1, h2⟩; exact ⟨⟨ha, hta, h1⟩, ht, h2.symm⟩

theorem nodup_agentTrades {db : Db} (hk : Keys db) :
    ((agentTrades db).map fun p => (p.1.1.snomed, p.2.snomed)).Nodup := by
  have hn : (agentTrades db).Nodup := nodup_innerJoin _
    (nodup_innerJoin _ (hk.agentsPkey.of_map _) hk.tradesAgentsPkey) (hk.tradesPkey.of_map _)
  refine List.Nodup.map_on (fun p hp q hq h => ?_) hn
  obtain ⟨pa, -, pt, pe⟩ := mem_agentTrades.1 hp
  obtain ⟨qa, -, qt, qe⟩ := mem_agentTrades.1 hq
  obtain ⟨h1, h2⟩ := Prod.mk.inj h
  have ha : p.1.1 = q.1.1 := eq_of_key hk.agentsPkey pa qa h1
  have ht : p.2 = q.2 := eq_of_key hk.tradesPkey pt qt h2
  exact Prod.ext (Prod.ext ha (by rw [pe, qe, ha, ht])) ht

/-- `agents.is_user_view = true`: the flag is set, not false and not NULL -/
def userView (a : Agent) : Bool := holds (eq3 a.isUserView (some true))

theorem userView_iff (a : Agent) : userView a = true ↔ a.isUserView = some true := by
  simp [userView]

/-- an agent with its trade, or the agent alone -/
abbrev LookupKey := Agent × Option Trade

/-- one key for each agent and trade linked in trades_agents, and one for each agent -/
def retrievalKeys (db : Db) : List LookupKey :=
  db.agents.map (fun a => (a, none)) ++ (agentTrades db).map fun p => (p.1.1, some p.2)

/-- the same, for the agents in the user view -/
def immunizationKeys (db : Db) : List LookupKey :=
  ((agentTrades db).filter fun p => userView p.1.1).map (fun p => (p.1.1, some p.2)) ++
    (db.agents.filter userView).map fun a => (a, none)

theorem mem_retrievalKeys_none {db : Db} {a : Agent} : (a, none) ∈ retrievalKeys db ↔ a ∈ db.agents := by
  simp [retrievalKeys]

theorem mem_retrievalKeys_some {db : Db} {a : Agent} {t : Trade} : (a, some t) ∈ retrievalKeys db ↔
    a ∈ db.agents ∧ t ∈ db.trades ∧ (⟨a.snomed, t.snomed⟩ : TradeAgent) ∈ db.tradesAgents := by
  simp only [retrievalKeys, List.mem_append, List.mem_map, Prod.mk.injEq, reduceCtorEq, and_false, exists_false,
    false_or, Option.some.injEq]
  constructor
  · rintro ⟨p, hp, rfl, rfl⟩
    obtain ⟨h1, h2, h3, h4⟩ := mem_agentTrades.1 hp
    exact ⟨h1, h3, h4 ▸ h2⟩
  · rintro ⟨ha, ht, hta⟩
    exact ⟨((a, ⟨a.snomed, t.snomed⟩), t), mem_agentTrades.2 ⟨ha, hta, ht, rfl⟩, rfl, rfl⟩

theorem nodup_retrievalKeys {db : Db} (hk : Keys db) : (retrievalKeys db).Nodup := by
  refine List.nodup_append.2 ⟨?_, ?_, ?_⟩
  · exact (hk.agentsPkey.of_map _).map fun a b h => (Prod.mk.inj h).1
  · refine List.Nodup.of_map (fun k : LookupKey => (k.1.snomed, k.2.map Trade.snomed)) ?_
    rw [List.map_map]
    refine List.Nodup.of_map (fun i : ℤ × Option ℤ => (i.1, i.2.getD 0)) ?_
    rw [List.map_map]
    exact nodup_agentTrades hk
  · intro k hk k' hk' he
    obtain ⟨a, -, rfl⟩ := List.mem_map.1 hk
    obtain ⟨p, -, rfl⟩ := List.mem_map.1 hk'
    simp at he

/-- immunization_lookups covers the keys of retrieval_lookups whose agent is in the user view -/
theorem immunizationKeys_perm (db : Db) :
    (immunizationKeys db).Perm ((retrievalKeys db).filter fun k => userView k.1) := by
  rw [immunizationKeys, retrievalKeys, List.filter_append, List.filter_map, List.filter_map]
  exact List.perm_append_comm

theorem nodup_immunizationKeys {db : Db} (hk : Keys db) : (immunizationKeys db).Nodup :=
  (immunizationKeys_perm db).nodup_iff.2 ((nodup_retrievalKeys hk).filter _)

/-- the diseases of an agent as the value under 'diseases' -/
def diseasesValue (obj : Disease → Json) (ds : List Disease) : Json := ofArray (arrayAgg (ds.map obj))

def immunizationRowOf (loc : DbLocale) (db : Db) (k : LookupKey) : SubRow :=
  immunizationSelect loc k.1 k.2 (diseasesValue immunizationDisease (diseasesOf db k.1))

def retrievalRowOf (db : Db) (k : LookupKey) : RetrievalRow where
  snomed := toString ((k.2.map Trade.snomed).getD k.1.snomed)
  agent := retrievalAgent k.1 (diseasesValue retrievalDisease (diseasesOf db k.1))
  trade := k.2.map retrievalTrade

theorem immunizationTrades_perm (loc : DbLocale) {db : Db} (hk : Keys db) : (immunizationTrades loc db).Perm
    (((agentTrades db).filter fun p => userView p.1.1).map fun p => immunizationRowOf loc db (p.1.1, some p.2)) := by
  have hn := (nodup_agentTrades hk).sublist (((agentTrades db).filter_sublist (p := fun p => userView p.1.1)).map _)
  rw [immunizationTrades, filter_diseaseJoin db (fun p : (Agent × TradeAgent) × Trade => p.1.1)
    (p := fun r => holds (eq3 r.1.1.1.1.isUserView (some true))) (q := fun p => userView p.1.1) fun r => rfl]
  refine branch_perm db (fun p : (Agent × TradeAgent) × Trade => p.1.1)
    (fun p => (p.1.1.prevalenceIndex, p.1.1.longEnName, p.1.1.longFrName, p.1.1.snomed, p.2.snomed))
    (fun p => immunizationRowOf loc db (p.1.1, some p.2)) ?_ (fun r => rfl) fun r => ?_
  · refine List.Nodup.of_map (fun k : Option Int16 × Option String × Option String × ℤ × ℤ => k.2.2.2) ?_
    rw [List.map_map]
    exact hn
  · simp only [subselect_eq, immunizationRowOf, diseasesValue]

theorem immunizationAgents_perm (loc : DbLocale) {db : Db} (hk : Keys db) : (immunizationAgents loc db).Perm
    ((db.agents.filter userView).map fun a => immunizationRowOf loc db (a, none)) := by
  rw [immunizationAgents, filter_diseaseJoin db _ (p := fun r => holds (eq3 r.1.1.isUserView (some true)))
    (q := userView) fun r => rfl]
  refine branch_perm db id Agent.snomed (fun a => immunizationRowOf loc db (a, none)) ?_ (fun r => rfl) fun r => ?_
  · exact hk.agentsPkey.sublist ((db.agents.filter_sublist (p := userView)).map _)
  · simp only [subselect_eq, immunizationRowOf, diseasesValue, id]

theorem retrieval_perm {db : Db} (hk : Keys db) :
    (retrievalLookups db).Perm ((retrievalKeys db).map (retrievalRowOf db)) := by
  rw [retrievalLookups, unionAll, retrievalKeys, List.map_append, List.map_map, List.map_map]
  refine List.Perm.append ?_ ?_
  · refine branch_perm db id Agent.snomed (fun a => retrievalRowOf db (a, none)) hk.agentsPkey (fun r => rfl)
      fun r => ?_
    simp only [subselect_eq, retrievalRowOf, diseasesValue, id, Option.map_none, Option.getD_none]
  · refine branch_perm db (fun p : (Agent × TradeAgent) × Trade => p.1.1) (fun p => (p.2.snomed, p.1.1.snomed))
      (fun p => retrievalRowOf db (p.1.1, some p.2)) ?_ (fun r => rfl) fun r => ?_
    · refine List.Nodup.of_map Prod.swap ?_
      rw [List.map_map]
      exact nodup_agentTrades hk
    · simp only [subselect_eq, retrievalRowOf, diseasesValue, Option.map_some, Option.getD_some]

/-! ## What the JSON tells apart -/

@[simp] theorem get_immunizationAgent_snomed (a : Agent) (ds : Json) :
    (immunizationAgent a ds).get "snomed" = some (.str (toString a.snomed)) := by
  simp [immunizationAgent, jsonbBuildObject, get_jsonb_obj, lookup_cons_eq]

@[simp] theorem get_immunizationAgent_diseases (a : Agent) (ds : Json) :
    (immunizationAgent a ds).get "diseases" = some (jsonb ds) := by
  simp [immunizationAgent, jsonbBuildObject, get_jsonb_obj]

@[simp] theorem get_immunizationTrade_snomed (t : Trade) :
    (immunizationTrade t).get "snomed" = some (.str (toString t.snomed)) := by
  simp [immunizationTrade, jsonbBuildObject, get_jsonb_obj, lookup_cons_eq]

/-- rows of different keys differ: in the agent's code, in the trade's code, or in having a trade -/
theorem immunizationRowOf_inj (loc : DbLocale) {db : Db} (hk : Keys db) {k k' : LookupKey} (h1 : k ∈ immunizationKeys db)
    (h2 : k' ∈ immunizationKeys db) (he : immunizationRowOf loc db k = immunizationRowOf loc db k') : k = k' := by
  have hm := fun k => (immunizationKeys_perm db).mem_iff (a := k)
  replace h1 := (List.mem_filter.1 ((hm k).1 h1)).1
  replace h2 := (List.mem_filter.1 ((hm k').1 h2)).1
  obtain ⟨a, t⟩ := k
  obtain ⟨a', t'⟩ := k'
  have hagent := congrArg (fun r : SubRow => r.2.agent.get "snomed") he
  have htrade := congrArg (fun r : SubRow => r.2.trade.map fun j => j.get "snomed") he
  simp only [immunizationRowOf, immunizationSelect, get_immunizationAgent_snomed, Option.some.injEq, Json.str.injEq,
    toString_int_inj, Option.map_map] at hagent htrade
  cases t with
  | none =>
    cases t' with
    | none =>
      rw [eq_of_key hk.agentsPkey (mem_retrievalKeys_none.1 h1) (mem_retrievalKeys_none.1 h2) hagent]
    | some t' => simp at htrade
  | some t =>
    cases t' with
    | none => simp at htrade
    | some t' =>
      simp only [Option.map_some, Function.comp, get_immunizationTrade_snomed, Option.some.injEq, Json.str.injEq,
        toString_int_inj] at htrade
      obtain ⟨ha, ht, -⟩ := mem_retrievalKeys_some.1 h1
      obtain ⟨ha', ht', -⟩ := mem_retrievalKeys_some.1 h2
      rw [eq_of_key hk.agentsPkey ha ha' hagent, eq_of_key hk.tradesPkey ht ht' htrade]

theorem immunization_perm (loc : DbLocale) {db : Db} (hk : Keys db) :
    (union (immunizationTrades loc db) (immunizationAgents loc db)).Perm
      ((immunizationKeys db).map (immunizationRowOf loc db)) := by
  refine union_perm ?_ (List.Nodup.map_on (fun k h1 k' h2 he => immunizationRowOf_inj loc hk h1 h2 he)
    (nodup_immunizationKeys hk))
  rw [immunizationKeys, List.map_append, List.map_map, List.map_map]
  exact (immunizationTrades_perm loc hk).append (immunizationAgents_perm loc hk)

theorem immunizationLe_preorders (loc : DbLocale) : Preorders (immunizationLe loc) := by
  have hle : Preorders fun a b : ℤ => decide (a ≤ b) :=
    ⟨fun a b => by simpa using Int.le_total a b, fun a b c h1 h2 => by simp only [decide_eq_true_eq] at *; omega⟩
  exact (hle.nullsLast.on fun x : SubRow => x.1.map Int16.toInt).thenBy
    ((loc.preorders.nullsLast.on fun x : SubRow => x.2.agentLongEn).thenBy
      (loc.preorders.nullsLast.on fun x : SubRow => x.2.agentLongFr))

/-! ## What the rows show -/

/-- the object of two names -/
def names (en fr : Option String) : Json := .obj [("en", en.elim .null .str), ("fr", fr.elim .null .str)]

/-- an integer, or null -/
def number (i : Option ℤ) : Json := i.elim .null fun i => .num (toString i)

/-- a disease in an agent's list -/
def diseaseShown (d : Disease) : Json :=
  .obj [("snomed", .num (toString d.snomed)), ("longName", names d.friendlyEnName d.friendlyFrName),
    ("yellowCardOrder", number (d.yellowCardOrder.map Int16.toInt))]

/-- the object of an agent: its columns, and the diseases `ds`; null when there are none -/
structure AgentShown (a : Agent) (ds : List Disease) (j : Json) : Prop where
  snomed : j.get "snomed" = some (.str (toString a.snomed))
  orderedDiseases : j.get "orderedDiseases" = some (names a.orderedDiseasesEn a.orderedDiseasesFr)
  shortName : j.get "shortName" = some (names a.shortEnName a.shortFrName)
  longName : j.get "longName" = some (names a.longEnName a.longFrName)
  prevalenceIndex : j.get "prevalenceIndex" = some (number (a.prevalenceIndex.map Int16.toInt))
  ontarioStartYear : j.get "ontarioStartYear" = some (number a.ontarioStartYear)
  ontarioFinishYear : j.get "ontarioFinishYear" = some (number a.ontarioFinishYear)
  noDiseases : ds = [] → j.get "diseases" = some .null
  diseases : ds ≠ [] → j.get "diseases" = some (.arr (ds.map diseaseShown))

/-- the object of a trade -/
structure TradeShown (t : Trade) (j : Json) : Prop where
  snomed : j.get "snomed" = some (.str (toString t.snomed))
  longName : j.get "longName" = some (names t.friendlyEnName t.friendlyFrName)
  manufacturer : j.get "manufacturer" = some (t.manufacturer.elim .null .str)
  ontarioStartYear : j.get "ontarioStartYear" = some (number t.ontarioStartYear)
  ontarioFinishYear : j.get "ontarioFinishYear" = some (number t.ontarioFinishYear)
  prevalenceIndex : j.get "prevalenceIndex" = some (number (t.prevalenceIndex.map Int16.toInt))
  panoramaName : j.get "panoramaName" = some (t.panoramaName.elim .null .str)

/-- a row of immunization_lookups for an agent, or for an agent and a trade -/
structure ImmunizationShown (loc : DbLocale) (k : LookupKey) (ds : List Disease) (r : ImmunizationRow) : Prop where
  agentLongEn : r.agentLongEn = k.1.longEnName.map loc.lower
  agentLongFr : r.agentLongFr = k.1.longFrName.map loc.lower
  agentShortEn : r.agentShortEn = k.1.shortEnName.map loc.lower
  agentShortFr : r.agentShortFr = k.1.shortFrName.map loc.lower
  agentOrderedDiseasesEn : r.agentOrderedDiseasesEn = k.1.orderedDiseasesEn.map loc.lower
  agentOrderedDiseasesFr : r.agentOrderedDiseasesFr = k.1.orderedDiseasesFr.map loc.lower
  tradeEn : r.tradeEn = k.2.bind fun t => t.friendlyEnName.map loc.lower
  tradeFr : r.tradeFr = k.2.bind fun t => t.friendlyFrName.map loc.lower
  agent : AgentShown k.1 ds r.agent
  trade : Option.Rel TradeShown k.2 r.trade

/-- a row of retrieval_lookups, under the code of the trade where there is one -/
structure RetrievalShown (k : LookupKey) (ds : List Disease) (r : RetrievalRow) : Prop where
  snomed : r.snomed = toString (k.2.elim k.1.snomed Trade.snomed)
  agent : AgentShown k.1 ds r.agent
  trade : Option.Rel TradeShown k.2 r.trade

theorem arrayAgg_map {α β : Type} (f : α → β) (l : List α) : arrayAgg (l.map f) = (arrayAgg l).map (·.map f) := by
  cases l <;> rfl

theorem jsonb_diseasesValue (obj : Disease → Json) (ds : List Disease) :
    jsonb (diseasesValue obj ds) = ofArray (arrayAgg (ds.map fun d => jsonb (obj d))) := by
  rw [diseasesValue, jsonb_ofArray, ← arrayAgg_map, List.map_map]; rfl

theorem jsonb_number (i : Option ℤ) : jsonb (ofInt i) = number i := by cases i <;> rfl

theorem jsonb_text (t : Option String) : jsonb (ofText t) = t.elim .null .str := by cases t <;> rfl

theorem jsonb_names (en fr : Option String) : jsonb (.obj [("en", ofText en), ("fr", ofText fr)]) = names en fr := by
  have hkeys : keyLt "fr" "en" = false := by decide
  rw [jsonb]
  simp [jsonbMembers, insertMember, hkeys, names, jsonb_text]

theorem jsonb_disease (d : Disease) : jsonb (immunizationDisease d) = diseaseShown d := by
  have h1 : keyLt "yellowCardOrder" "snomed" = false := by decide
  have h2 : keyLt "longName" "snomed" = false := by decide
  have h3 : keyLt "longName" "yellowCardOrder" = true := by decide
  rw [immunizationDisease, jsonBuildObject, jsonb]
  simp [jsonbMembers, insertMember, h1, h2, h3, jsonBuildObject, jsonb_names, jsonb_number, diseaseShown, number]

/-- an object that is built within another is kept as it is -/
theorem jsonb_jsonb_names (en fr : Option String) : jsonb (names en fr) = names en fr := by
  have hkeys : keyLt "fr" "en" = false := by decide
  have hvalue : ∀ t : Option String, jsonb (t.elim .null .str) = t.elim .null .str := fun t => by cases t <;> rfl
  rw [names, jsonb]
  simp [jsonbMembers, insertMember, hkeys, hvalue]

theorem agent_shown (a : Agent) (ds : List Disease) :
    AgentShown a ds (immunizationAgent a (diseasesValue immunizationDisease ds)) where
  snomed := get_immunizationAgent_snomed a _
  orderedDiseases := by
    simp [immunizationAgent, jsonbBuildObject, get_jsonb_obj, lookup_cons_eq, jsonb_names, jsonb_jsonb_names]
  shortName := by
    simp [immunizationAgent, jsonbBuildObject, get_jsonb_obj, lookup_cons_eq, jsonb_names, jsonb_jsonb_names]
  longName := by
    simp [immunizationAgent, jsonbBuildObject, get_jsonb_obj, lookup_cons_eq, jsonb_names, jsonb_jsonb_names]
  prevalenceIndex := by simp [immunizationAgent, jsonbBuildObject, get_jsonb_obj, lookup_cons_eq, jsonb_number]
  ontarioStartYear := by simp [immunizationAgent, jsonbBuildObject, get_jsonb_obj, lookup_cons_eq, jsonb_number]
  ontarioFinishYear := by simp [immunizationAgent, jsonbBuildObject, get_jsonb_obj, lookup_cons_eq, jsonb_number]
  noDiseases := by
    rintro rfl
    exact get_immunizationAgent_diseases a _
  diseases hne := by
    obtain ⟨d, ds, rfl⟩ := List.exists_cons_of_ne_nil hne
    rw [get_immunizationAgent_diseases, jsonb_diseasesValue]
    simp only [jsonb_disease]
    rfl

theorem trade_shown (t : Trade) : TradeShown t (immunizationTrade t) where
  snomed := get_immunizationTrade_snomed t
  longName := by
    simp [immunizationTrade, jsonbBuildObject, jsonBuildObject, get_jsonb_obj, lookup_cons_eq, jsonb_names]
  manufacturer := by simp [immunizationTrade, jsonbBuildObject, get_jsonb_obj, lookup_cons_eq, jsonb_text]
  ontarioStartYear := by simp [immunizationTrade, jsonbBuildObject, get_jsonb_obj, lookup_cons_eq, jsonb_number]
  ontarioFinishYear := by simp [immunizationTrade, jsonbBuildObject, get_jsonb_obj, lookup_cons_eq, jsonb_number]
  prevalenceIndex := by simp [immunizationTrade, jsonbBuildObject, get_jsonb_obj, lookup_cons_eq, jsonb_number]
  panoramaName := by simp [immunizationTrade, jsonbBuildObject, get_jsonb_obj, jsonb_text]

/-- a trade is shown where there is one -/
theorem optional_shown {f : Trade → Json} (hf : ∀ t, TradeShown t (f t)) (t : Option Trade) :
    Option.Rel TradeShown t (t.map f) := by
  cases t with
  | none => exact .none
  | some t => exact .some (hf t)

theorem immunization_shown (loc : DbLocale) (k : LookupKey) (ds : List Disease) :
    ImmunizationShown loc k ds (immunizationSelect loc k.1 k.2 (diseasesValue immunizationDisease ds)).2 :=
  ⟨rfl, rfl, rfl, rfl, rfl, rfl, rfl, rfl, agent_shown k.1 ds, optional_shown trade_shown k.2⟩

/-- the two views have the same expressions for the objects -/
theorem retrievalAgent_eq : retrievalAgent = immunizationAgent := rfl

theorem retrievalTrade_eq : retrievalTrade = immunizationTrade := rfl

theorem retrievalDisease_eq : retrievalDisease = immunizationDisease := rfl

theorem retrieval_shown (k : LookupKey) (ds : List Disease) :
    RetrievalShown k ds ⟨toString ((k.2.map Trade.snomed).getD k.1.snomed),
      retrievalAgent k.1 (diseasesValue retrievalDisease ds), k.2.map retrievalTrade⟩ where
  snomed := by cases k.2 <;> rfl
  agent := by
    rw [retrievalAgent_eq, retrievalDisease_eq]
    exact agent_shown k.1 ds
  trade := by
    rw [retrievalTrade_eq]
    exact optional_shown trade_shown k.2

/-! ## immunization_lookups -/

/-- the order of agents by (prevalence_index, lower long English name, lower long French name), NULLs last -/
def agentLe (loc : DbLocale) : Agent → Agent → Bool :=
  thenBy (fun a b => nullsLast (fun i j => decide (i ≤ j)) (a.prevalenceIndex.map Int16.toInt)
      (b.prevalenceIndex.map Int16.toInt))
    (thenBy (fun a b => nullsLast loc.le (a.longEnName.map loc.lower) (b.longEnName.map loc.lower))
      fun a b => nullsLast loc.le (a.longFrName.map loc.lower) (b.longFrName.map loc.lower))

/-- what the view owes for one key: a row that shows it, with every linked disease once, and no other -/
structure RowFor (loc : DbLocale) (db : Db) (k : LookupKey) (r : ImmunizationRow) : Prop where
  row : ∃ ds : List Disease, ds.Nodup ∧
    (∀ d, d ∈ ds ↔ d ∈ db.diseases ∧ (⟨k.1.snomed, d.snomed⟩ : AgentDisease) ∈ db.agentsDiseases) ∧
    ImmunizationShown loc k ds r
  noDiseases : r.agent.get "diseases" = some .null ↔ ∀ ad ∈ db.agentsDiseases, ad.agentSnomed ≠ k.1.snomed

theorem diseasesOf_eq_nil {db : Db} (hk : Keys db) (a : Agent) :
    diseasesOf db a = [] ↔ ∀ ad ∈ db.agentsDiseases, ad.agentSnomed ≠ a.snomed := by
  rw [List.eq_nil_iff_forall_not_mem]
  constructor
  · rintro h ⟨i, j⟩ had rfl
    -- the foreign key gives the disease of every link
    obtain ⟨d, hd, rfl⟩ := List.mem_map.1 (hk.foreign.2 _ had).2
    exact h d (mem_diseasesOf.2 ⟨hd, had⟩)
  · intro h d hd
    exact h _ (mem_diseasesOf.1 hd).2 rfl

theorem rowFor (loc : DbLocale) {db : Db} (hk : Keys db) (k : LookupKey) :
    RowFor loc db k (immunizationRowOf loc db k).2 := by
  have hshown : ImmunizationShown loc k (diseasesOf db k.1) (immunizationRowOf loc db k).2 := immunization_shown loc k _
  refine ⟨⟨diseasesOf db k.1, (hk.diseasesPkey.of_map _).filter _, fun d => mem_diseasesOf, hshown⟩, ?_⟩
  rw [← diseasesOf_eq_nil hk]
  refine ⟨fun hnull => ?_, hshown.agent.noDiseases⟩
  by_contra hne
  have harray := hshown.agent.diseases hne
  rw [hnull] at harray
  cases harray

theorem mem_immunizationKeys {db : Db} {k : LookupKey} :
    k ∈ immunizationKeys db ↔ k ∈ retrievalKeys db ∧ k.1.isUserView = some true := by
  rw [(immunizationKeys_perm db).mem_iff, List.mem_filter, userView_iff]

/-- **immunization_lookups is complete, duplicate-free and sorted.** Its rows correspond one by one to keys: one
without trade for each agent in the user view, one for each of its trades in trades_agents, none twice and no other.
Each row shows its agent, its trade and exactly the linked diseases, and the rows are in the order of their agents. -/
theorem immunization_lookups_exact (loc : DbLocale) (db : Db) (hk : Keys db) : ∃ ks : List LookupKey, ks.Nodup ∧
    (∀ a, (a, none) ∈ ks ↔ a ∈ db.agents ∧ a.isUserView = some true) ∧
    (∀ a t, (a, some t) ∈ ks ↔ (a ∈ db.agents ∧ a.isUserView = some true) ∧ t ∈ db.trades ∧
      (⟨a.snomed, t.snomed⟩ : TradeAgent) ∈ db.tradesAgents) ∧
    (∀ ta ∈ db.tradesAgents, ∃ a ∈ db.agents, ∃ t ∈ db.trades, ta = ⟨a.snomed, t.snomed⟩) ∧
    List.Forall₂ (RowFor loc db) ks (immunizationLookups loc db) ∧
    ks.Pairwise fun k k' => agentLe loc k.1 k'.1 = true := by
  have hp := (orderBy_perm (immunizationLe loc) _).trans (immunization_perm loc hk)
  have hs := orderBy_sorted (immunizationLe_preorders loc) (union (immunizationTrades loc db) (immunizationAgents loc db))
  obtain ⟨ks, hks, he⟩ := exists_map_of_perm hp
  refine ⟨ks, hks.nodup_iff.2 (nodup_immunizationKeys hk), fun a => ?_, fun a t => ?_, ?_, ?_, ?_⟩
  · rw [hks.mem_iff, mem_immunizationKeys, mem_retrievalKeys_none]
  · rw [hks.mem_iff, mem_immunizationKeys, mem_retrievalKeys_some]; tauto
  · rintro ⟨i, j⟩ hta
    obtain ⟨h1, h2⟩ := hk.foreign.1 _ hta
    obtain ⟨a, ha, rfl⟩ := List.mem_map.1 h1
    obtain ⟨t, ht, rfl⟩ := List.mem_map.1 h2
    exact ⟨a, ha, t, ht, rfl⟩
  · rw [immunizationLookups, he, List.map_map, List.forall₂_map_right_iff]
    exact List.forall₂_same.2 fun k _ => rowFor loc hk k
  · rw [he, List.pairwise_map] at hs
    exact hs

/-- the "C" locale: ASCII lower case, texts in code point order -/
def cLocale : DbLocale where
  lower := String.toLower
  le a b := decide (a ≤ b)
  preorders := ⟨fun a b => by simpa using le_total a b, fun a b c h1 h2 => by
    simp only [decide_eq_true_eq] at *; exact le_trans h1 h2⟩

/-- two agents in the user view, one of them with two trades and two diseases, one with neither; and a hidden agent -/
def sampleDb : Db where
  trades := [⟨10, some "T1", none, none, none, none, none, none⟩, ⟨11, none, none, none, none, none, none, none⟩]
  agents := [⟨1, some "A", none, some "Agent", none, some true, some 2, none, none, none, none⟩,
    ⟨2, none, none, none, none, some true, none, none, none, none, none⟩,
    ⟨3, none, none, none, none, none, some 1, none, none, none, none⟩]
  diseases := [⟨5, some "D5", none, some 1⟩, ⟨6, none, none, none⟩, ⟨7, none, none, none⟩]
  tradesAgents := [⟨1, 10⟩, ⟨1, 11⟩, ⟨3, 10⟩]
  agentsDiseases := [⟨1, 5⟩, ⟨1, 6⟩, ⟨3, 7⟩]

theorem sampleDb_keys : Keys sampleDb := ⟨by decide, by decide, by decide, by decide, by decide, by decide⟩

theorem immunization_lookups_exact_sample : ∃ ks : List LookupKey, ks.Nodup ∧
    List.Forall₂ (RowFor cLocale sampleDb) ks (immunizationLookups cLocale sampleDb) := by
  obtain ⟨ks, h1, -, -, -, h2, -⟩ := immunization_lookups_exact cLocale sampleDb sampleDb_keys
  exact ⟨ks, h1, h2⟩

end IconSetup.Views
