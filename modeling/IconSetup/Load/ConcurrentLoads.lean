/-
The two loaders under READ COMMITTED, for any number of sessions that each insert one text into the staging table in
a transaction of its own. A session runs the statements of the trigger body one after the other (`exec`), and the
statements of all sessions interleave. It commits after the last one, and may be aborted at any time.

Of PostgreSQL: DROP TABLE and CREATE TABLE take a lock on the name of the backup table and keep it until the
transaction ends; a session that needs the lock while another holds it waits (the step leaves the state as it is).
DROP IF EXISTS takes no lock when no backup table is committed. CREATE TABLE AS reads the target when it starts
(`snapshot`) and creates the table afterwards, which fails when one has been committed that the session did not drop.
The sequence is not undone by an abort. Inserts do not wait for the keys of other open transactions here, which only
allows more runs.

- `TxInv`: what holds of an open transaction, by how far it is in the body. From CREATE on it holds the lock, its
  backup is the committed target, and what it sees is its own work on a target that nobody else has changed.
- `step_inv`: every step keeps that, and that the last committed load stands (`Stands`).
- `step_tables`: every step but a commit leaves the committed tables as they are.
- `concurrent_loads_never_mix`: both, for the two loaders and every interleaving.
-/
import Mathlib.Tactic
import IconSetup.Core.Run
import IconSetup.Core.ReadCommitted
import IconSetup.Load.Loaders
import IconSetup.Load.WholePayload

namespace IconSetup.ConcurrentLoads

open IconSetup.Run IconSetup.ReadCommitted IconSetup.Loaders IconSetup.WholePayload

variable {R I : Type}

/-! ## Sessions -/

/-- an open transaction -/
structure Tx (R I : Type) where
  text : String
  /-- how many statements of the trigger body are done -/
  pc : ℕ
  /-- it dropped the committed backup table -/
  dropped : Bool
  /-- CREATE TABLE AS has started, and read these rows -/
  snapshot : Option (List R)
  created : Option (List R)
  target : Delta R
  staging : Delta String
  index : Option (List I)
deriving DecidableEq, Repr

/-- a committed load, with the target as it left it -/
structure Load (R : Type) where
  text : String
  left : List R
deriving DecidableEq, Repr

structure St (R I : Type) where
  target : Table R
  bak : Option (List R)
  staging : Table String
  sequence : ℤ
  index : Option (List I)
  /-- the session that holds the lock on the name of the backup table -/
  holder : Option ℕ
  sessions : ℕ → Option (Tx R I)
  /-- the committed loads, latest first -/
  loads : List (Load R)

inductive Op where
  | insert (i : ℕ) (text : String)
  | exec (i : ℕ)
  | commit (i : ℕ)
  | abort (i : ℕ)
deriving DecidableEq, Repr

/-- a database in which nothing is staged; the backup table may exist or not -/
def init (target : List R) (bak : Option (List R)) (sequence : ℤ) (index : Option (List I)) : St R I :=
  ⟨Table.ofList target, bak, Table.ofList [], sequence, index, none, fun _ => none, []⟩

/-- a session has staged its text -/
def begun (text : String) : Tx R I := ⟨text, 0, false, none, none, Delta.empty, ⟨[], [text]⟩, none⟩

def setTx (s : St R I) (i : ℕ) (tx : Option (Tx R I)) : St R I :=
  { s with sessions := Function.update s.sessions i tx }

def lock (s : St R I) (i : ℕ) : St R I := { s with holder := some i }

/-- the lock is not held by another session -/
def Free (s : St R I) (i : ℕ) : Prop := s.holder = none ∨ s.holder = some i

instance (s : St R I) (i : ℕ) : Decidable (Free s i) := by unfold Free; infer_instance

def endTx (s : St R I) (i : ℕ) : St R I :=
  { setTx s i none with holder := if s.holder = some i then none else s.holder }

def execStmt (l : Loader R I) (s : St R I) (i : ℕ) (tx : Tx R I) : Stmt → St R I
  | .dropBak =>
    match s.bak with
    | none => setTx s i (some { tx with pc := tx.pc + 1 })
    | some _ =>
      if Free s i then lock (setTx s i (some { tx with dropped := true, pc := tx.pc + 1 })) i else s
  | .createBak =>
    match tx.snapshot with
    | none => setTx s i (some { tx with snapshot := some (visible s.target tx.target) })
    | some rows =>
      if s.bak ≠ none ∧ tx.dropped = false then endTx s i
      else if Free s i then lock (setTx s i (some { tx with created := some rows, pc := tx.pc + 1 })) i
      else s
  | .deleteTarget => setTx s i (some { tx with target := deleteAll s.target tx.target, pc := tx.pc + 1 })
  | .insertTarget =>
    match l.select (visible s.staging tx.staging) s.sequence with
    | (none, seq) => { endTx s i with sequence := seq }
    | (some rows, seq) =>
      match l.insert (visible s.target tx.target) rows with
      | none => { endTx s i with sequence := seq }
      | some _ =>
        { setTx s i (some { tx with target := tx.target.insert rows, pc := tx.pc + 1 }) with sequence := seq }
  | .deleteStaging => setTx s i (some { tx with staging := deleteAll s.staging tx.staging, pc := tx.pc + 1 })
  | .refreshIndex =>
    setTx s i (some { tx with index := some ((visible s.target tx.target).map l.view), pc := tx.pc + 1 })

def commitTx (s : St R I) (i : ℕ) (tx : Tx R I) : St R I :=
  { endTx s i with
    target := commit s.target tx.target
    bak := tx.created <|> if tx.dropped then none else s.bak
    staging := commit s.staging tx.staging
    index := tx.index <|> s.index
    loads := ⟨tx.text, visible s.target tx.target⟩ :: s.loads }

def step (l : Loader R I) (s : St R I) : Op → St R I
  | .insert i text =>
    match s.sessions i with
    | none => setTx s i (some (begun text))
    | some _ => s
  | .exec i =>
    match s.sessions i with
    | none => s
    | some tx =>
      match l.body[tx.pc]? with
      | none => s
      | some stmt => execStmt l s i tx stmt
  | .commit i =>
    match s.sessions i with
    | none => s
    | some tx => if tx.pc = l.body.length then commitTx s i tx else s
  | .abort i => endTx s i

/-! ## What stands -/

/-- the rows that a load of the text gives -/
def Payload (l : Loader R I) (text : String) (rows : List R) : Prop :=
  ∃ seq seq', l.select [text] seq = (some rows, seq') ∧ l.insert [] rows = some rows

/-- what the target held before the last of the loads -/
def before (initial : List R) : List (Load R) → List R
  | [] => initial
  | load :: _ => load.left

/-- The tables are those of the start, or those that the last committed load left: its payload in the target, and in
the backup what the load before it left. -/
def Stands (l : Loader R I) (s0 s : St R I) : Prop :=
  match s.loads with
  | [] => contents s.target = contents s0.target ∧ s.bak = s0.bak ∧ s.index = s0.index
  | load :: earlier =>
    Payload l load.text (contents s.target) ∧ contents s.target = load.left ∧
      s.bak = some (before (contents s0.target) earlier) ∧ s.index = indexAfter l (contents s.target) s0.index

theorem Stands.before_eq {l : Loader R I} {s0 s : St R I} (h : Stands l s0 s) :
    before (contents s0.target) s.loads = contents s.target := by
  unfold Stands at h
  cases hl : s.loads with
  | nil => simp only [hl] at h; exact h.1.symm
  | cons load earlier => simp only [hl] at h; exact h.2.1.symm

/-! ## The invariant -/

structure TxInv (l : Loader R I) (s : St R I) (i : ℕ) (tx : Tx R I) : Prop where
  locked : tx.dropped = true ∨ 2 ≤ tx.pc → s.holder = some i
  unread : tx.pc = 0 → tx.snapshot = none
  /-- no load can have been committed since the snapshot when CREATE is going to succeed -/
  current : ∀ rows ∈ tx.snapshot, tx.dropped = true ∨ s.bak = none → rows = contents s.target
  created : 2 ≤ tx.pc → tx.created = some (contents s.target)
  untouched : tx.pc ≤ 2 → tx.target = Delta.empty
  deleted : tx.pc = 3 → visible s.target tx.target = []
  inserted : 4 ≤ tx.pc → Payload l tx.text (visible s.target tx.target)
  staged : tx.pc ≤ 4 → tx.staging = ⟨[], [tx.text]⟩
  unstaged : 5 ≤ tx.pc → visible s.staging tx.staging = []
  index : tx.index = if 6 ≤ tx.pc then some ((visible s.target tx.target).map l.view) else none

structure Inv (l : Loader R I) (s0 s : St R I) : Prop where
  staging : contents s.staging = []
  tx : ∀ i tx, s.sessions i = some tx → TxInv l s i tx
  stands : Stands l s0 s

theorem inv_init (l : Loader R I) (target : List R) (bak : Option (List R)) (sequence : ℤ)
    (index : Option (List I)) : Inv l (init target bak sequence index) (init target bak sequence index) :=
  ⟨contents_ofList [], fun i tx h => (by cases h), ⟨rfl, rfl, rfl⟩⟩

/-- the position of a statement in the body -/
def position : Stmt → ℕ
  | .dropBak => 0
  | .createBak => 1
  | .deleteTarget => 2
  | .insertTarget => 3
  | .deleteStaging => 4
  | .refreshIndex => 5

theorem pc_eq {l : Loader R I} {pc : ℕ} {stmt : Stmt} (h : l.body[pc]? = some stmt) : pc = position stmt := by
  have hget : ∀ body : List Stmt, body = moveStaged ∨ body = moveStaged ++ [.refreshIndex] →
      ∀ k < 6, ∀ st, body[k]? = some st → k = position st := by
    intro body hb
    rcases hb with rfl | rfl <;> decide
  have hlt : pc < 6 := by
    have hpc : pc < l.body.length := (List.getElem?_eq_some_iff.1 h).1
    rcases l.body_eq with hb | hb <;> rw [hb] at hpc <;> simp [moveStaged] at hpc <;> omega
  exact hget l.body l.body_eq pc hlt stmt h

/-- nothing that a transaction's invariant mentions has changed -/
theorem TxInv.transfer {l : Loader R I} {s s' : St R I} {i : ℕ} {tx : Tx R I} (h : TxInv l s i tx)
    (ht : s'.target = s.target) (hb : s'.bak = s.bak) (hst : s'.staging = s.staging)
    (hh : s.holder = some i → s'.holder = some i) : TxInv l s' i tx := by
  refine ⟨fun hl => hh (h.locked hl), h.unread, ?_, ?_, h.untouched, ?_, ?_, h.staged, ?_, ?_⟩
  · rw [ht, hb]; exact h.current
  · rw [ht]; exact h.created
  · rw [ht]; exact h.deleted
  · rw [ht]; exact h.inserted
  · rw [hst]; exact h.unstaged
  · rw [ht]; exact h.index

/-- session `i` moves on (or ends); the committed tables stay, and nobody else loses the lock -/
theorem inv_set {l : Loader R I} {s0 s s' : St R I} (h : Inv l s0 s) (i : ℕ) (tx' : Option (Tx R I))
    (ht : s'.target = s.target) (hb : s'.bak = s.bak) (hst : s'.staging = s.staging) (hx : s'.index = s.index)
    (hl : s'.loads = s.loads) (hsess : s'.sessions = Function.update s.sessions i tx')
    (hh : ∀ j, j ≠ i → s.holder = some j → s'.holder = some j) (htx : ∀ tx ∈ tx', TxInv l s' i tx) :
    Inv l s0 s' := by
  refine ⟨by rw [hst]; exact h.staging, fun j tx hj => ?_, ?_⟩
  · rw [hsess, Function.update_apply] at hj
    split_ifs at hj with he
    · subst he; exact htx tx hj
    · exact (h.tx j tx hj).transfer ht hb hst (hh j he)
  · have := h.stands
    unfold Stands at this ⊢
    rwa [hl, ht, hb, hx]

theorem inv_endTx {l : Loader R I} {s0 s : St R I} (h : Inv l s0 s) (i : ℕ) (seq : ℤ) :
    Inv l s0 { endTx s i with sequence := seq } := by
  refine inv_set h i none rfl rfl rfl rfl rfl rfl (fun j hj hh => ?_) (fun tx htx => by cases htx)
  simp only [endTx, hh, Option.some.injEq, hj, if_false]

theorem free_other {s : St R I} {i j : ℕ} (hf : Free s i) (hj : j ≠ i) : s.holder ≠ some j := by
  intro hh
  rcases hf with hf | hf
  · rw [hf] at hh; cases hh
  · rw [hf] at hh; exact hj (Option.some.inj hh).symm

/-- before CREATE has finished, a session has nothing but its staged text, and perhaps the lock -/
theorem txInv_early {l : Loader R I} {s : St R I} {i : ℕ} {tx : Tx R I} (hpc : tx.pc ≤ 1)
    (hlock : tx.dropped = true → s.holder = some i) (h0 : tx.pc = 0 → tx.snapshot = none)
    (hcur : ∀ rows ∈ tx.snapshot, tx.dropped = true ∨ s.bak = none → rows = contents s.target)
    (ht : tx.target = Delta.empty) (hs : tx.staging = ⟨[], [tx.text]⟩) (hx : tx.index = none) : TxInv l s i tx := by
  refine ⟨fun hl => ?_, h0, hcur, fun h => absurd h (by omega), fun _ => ht, fun h => absurd h (by omega),
    fun h => absurd h (by omega), fun _ => hs, fun h => absurd h (by omega), ?_⟩
  · rcases hl with hl | hl
    · exact hlock hl
    · omega
  · rw [if_neg (by omega)]; exact hx

theorem txInv_begun (l : Loader R I) (s : St R I) (i : ℕ) (text : String) : TxInv l s i (begun text) :=
  txInv_early (by simp [begun]) (fun h => by cases h) (fun _ => rfl) (fun rows h => by cases h) rfl rfl rfl

/-- once the lock is held and the backup created, only the work on target, staging and index is left to state -/
theorem txInv_late {l : Loader R I} {s : St R I} {i : ℕ} {tx : Tx R I} (hpc : 2 ≤ tx.pc) (hlock : s.holder = some i)
    (hcur : ∀ rows ∈ tx.snapshot, tx.dropped = true ∨ s.bak = none → rows = contents s.target)
    (hc : tx.created = some (contents s.target))
    (h2 : tx.pc = 2 → tx.target = Delta.empty) (h3 : tx.pc = 3 → visible s.target tx.target = [])
    (h4 : 4 ≤ tx.pc → Payload l tx.text (visible s.target tx.target))
    (hs : tx.pc ≤ 4 → tx.staging = ⟨[], [tx.text]⟩) (hu : 5 ≤ tx.pc → visible s.staging tx.staging = [])
    (hx : tx.index = if 6 ≤ tx.pc then some ((visible s.target tx.target).map l.view) else none) : TxInv l s i tx :=
  ⟨fun _ => hlock, fun h => absurd h (by omega), hcur, fun _ => hc,
    fun h => h2 (by omega), h3, h4, hs, hu, hx⟩

theorem TxInv.index_none {l : Loader R I} {s : St R I} {i : ℕ} {tx : Tx R I} (h : TxInv l s i tx) (hpc : tx.pc ≤ 5) :
    tx.index = none := by
  rw [h.index, if_neg (by omega)]

/-! ## Steps -/

theorem inv_dropBak {l : Loader R I} {s0 s : St R I} (h : Inv l s0 s) {i : ℕ} {tx : Tx R I}
    (hi : s.sessions i = some tx) (hpc : tx.pc = 0) : Inv l s0 (execStmt l s i tx .dropBak) := by
  have htx := h.tx i tx hi
  have hpc' : tx.pc + 1 ≤ 1 := by omega
  have ht := htx.untouched (by omega)
  have hst := htx.staged (by omega)
  have hx := htx.index_none (by omega)
  have hnone := htx.unread hpc
  simp only [execStmt]
  split
  · -- no backup table is committed: nothing to drop, and no lock to take
    refine inv_set h i _ rfl rfl rfl rfl rfl rfl (fun _ _ hh => hh) fun tx' htx' => ?_
    cases htx'
    exact txInv_early hpc' (fun hd => htx.locked (Or.inl hd)) (fun _ => hnone) htx.current ht hst hx
  · split_ifs with hf
    · refine inv_set h i _ rfl rfl rfl rfl rfl rfl (fun j hj hh => absurd hh (free_other hf hj)) fun tx' htx' => ?_
      cases htx'
      refine txInv_early hpc' (fun _ => rfl) (fun _ => hnone) (fun rows hr _ => ?_) ht hst hx
      simp only [hnone] at hr
      cases hr
    · exact h

theorem inv_createBak {l : Loader R I} {s0 s : St R I} (h : Inv l s0 s) {i : ℕ} {tx : Tx R I}
    (hi : s.sessions i = some tx) (hpc : tx.pc = 1) : Inv l s0 (execStmt l s i tx .createBak) := by
  have htx := h.tx i tx hi
  have ht := htx.untouched (by omega)
  have hst := htx.staged (by omega)
  have hx := htx.index_none (by omega)
  simp only [execStmt]
  split
  · -- CREATE TABLE AS starts
    refine inv_set h i _ rfl rfl rfl rfl rfl rfl (fun _ _ hh => hh) fun tx' htx' => ?_
    cases htx'
    refine txInv_early (by simp only; omega) (fun hd => htx.locked (Or.inl hd))
      (fun (h0 : tx.pc = 0) => absurd h0 (by omega)) (fun rows hr _ => ?_) ht hst hx
    cases hr
    rw [ht, visible_empty]
    rfl
  · rename_i rows hrows
    split_ifs with he hf
    · exact inv_endTx h i s.sequence
    · -- a committed backup table was dropped by this session, or there is none: the snapshot is current
      have hcur : rows = contents s.target := by
        refine htx.current rows hrows ?_
        cases hd : tx.dropped with
        | true => exact Or.inl rfl
        | false => right; by_contra hb; exact he ⟨hb, hd⟩
      refine inv_set h i _ rfl rfl rfl rfl rfl rfl (fun j hj hh => absurd hh (free_other hf hj)) fun tx' htx' => ?_
      cases htx'
      have h2 : tx.pc + 1 = 2 := by omega
      refine txInv_late (by simp only; omega) rfl (fun rows' hr _ => ?_) (by rw [hcur]; rfl) (fun _ => ht)
        (fun (h3 : tx.pc + 1 = 3) => absurd h3 (by omega)) (fun (h4 : 4 ≤ tx.pc + 1) => absurd h4 (by omega))
        (fun _ => hst) (fun (h5 : 5 ≤ tx.pc + 1) => absurd h5 (by omega)) ?_
      · simp only [hrows, Option.mem_some_iff] at hr
        rw [← hr]
        exact hcur
      · simp only [h2]; exact hx
    · exact h

/-- a session past CREATE does its own work: target, staging and index -/
theorem inv_work {l : Loader R I} {s0 s : St R I} (h : Inv l s0 s) {i : ℕ} {tx : Tx R I} (hi : s.sessions i = some tx)
    (hpc : 2 ≤ tx.pc) (target : Delta R) (staging : Delta String) (index : Option (List I)) (seq : ℤ)
    (h3 : tx.pc = 2 → visible s.target target = []) (h4 : 3 ≤ tx.pc → Payload l tx.text (visible s.target target))
    (hs : tx.pc ≤ 3 → staging = ⟨[], [tx.text]⟩) (hu : 4 ≤ tx.pc → visible s.staging staging = [])
    (hx : index = if 5 ≤ tx.pc then some ((visible s.target target).map l.view) else none) :
    Inv l s0 { setTx s i (some { tx with target := target, staging := staging, index := index, pc := tx.pc + 1 }) with
      sequence := seq } := by
  have htx := h.tx i tx hi
  refine inv_set h i _ rfl rfl rfl rfl rfl rfl (fun _ _ hh => hh) fun tx' htx' => ?_
  cases htx'
  refine txInv_late (by simp only; omega) (htx.locked (Or.inr hpc)) htx.current (htx.created hpc)
    (fun (h2 : tx.pc + 1 = 2) => absurd h2 (by omega)) (fun (he : tx.pc + 1 = 3) => h3 (by omega))
    (fun (he : 4 ≤ tx.pc + 1) => h4 (by omega)) (fun (he : tx.pc + 1 ≤ 4) => hs (by omega))
    (fun (he : 5 ≤ tx.pc + 1) => hu (by omega)) ?_
  rw [hx]
  exact if_congr (by simp only; omega) rfl rfl

theorem inv_execStmt {l : Loader R I} {s0 s : St R I} (h : Inv l s0 s) {i : ℕ} {tx : Tx R I} {stmt : Stmt}
    (hi : s.sessions i = some tx) (hpc : tx.pc = position stmt) : Inv l s0 (execStmt l s i tx stmt) := by
  have htx := h.tx i tx hi
  cases stmt with
  | dropBak => exact inv_dropBak h hi hpc
  | createBak => exact inv_createBak h hi hpc
  | deleteTarget =>
    have hpc : tx.pc = 2 := hpc
    exact inv_work h hi (by omega) (deleteAll s.target tx.target) tx.staging tx.index s.sequence
      (fun _ => visible_deleteAll _ _) (fun h3 => absurd h3 (by omega)) (fun _ => htx.staged (by omega))
      (fun h4 => absurd h4 (by omega)) (by rw [htx.index_none (by omega), if_neg (by omega)])
  | insertTarget =>
    have hpc : tx.pc = 3 := hpc
    have hst : visible s.staging tx.staging = [tx.text] := by
      rw [htx.staged (by omega), visible_born, h.staging, List.nil_append]
    simp only [execStmt, hst, htx.deleted hpc]
    split
    · exact inv_endTx h i _
    · rename_i rows seq hsel
      split
      · exact inv_endTx h i seq
      · rename_i target hins
        -- the payload goes into a target in which the session sees nothing
        have hvis : visible s.target (tx.target.insert rows) = rows := by
          rw [visible_insert, htx.deleted hpc, List.nil_append]
        have hrows : target = rows := by rw [l.insert_append _ _ _ hins, List.nil_append]
        refine inv_work h hi (by omega) (tx.target.insert rows) tx.staging tx.index seq
          (fun h2 => absurd h2 (by omega)) (fun _ => ?_) (fun _ => htx.staged (by omega))
          (fun h4 => absurd h4 (by omega)) (by rw [htx.index_none (by omega), if_neg (by omega)])
        rw [hvis]
        exact ⟨s.sequence, seq, hsel, hrows ▸ hins⟩
  | deleteStaging =>
    have hpc : tx.pc = 4 := hpc
    exact inv_work h hi (by omega) tx.target (deleteAll s.staging tx.staging) tx.index s.sequence
      (fun h2 => absurd h2 (by omega)) (fun _ => htx.inserted (by omega)) (fun h3 => absurd h3 (by omega))
      (fun _ => visible_deleteAll _ _) (by rw [htx.index_none (by omega), if_neg (by omega)])
  | refreshIndex =>
    have hpc : tx.pc = 5 := hpc
    exact inv_work h hi (by omega) tx.target tx.staging (some ((visible s.target tx.target).map l.view)) s.sequence
      (fun h2 => absurd h2 (by omega)) (fun _ => htx.inserted (by omega)) (fun h3 => absurd h3 (by omega))
      (fun _ => htx.unstaged (by omega)) (by rw [if_pos (by omega)])

/-- the index view after the body has run to its end -/
theorem indexAfter_done {l : Loader R I} {pc : ℕ} (hpc : pc = l.body.length) (rows : List R) (index : Option (List I)) :
    ((if 6 ≤ pc then some (rows.map l.view) else none) <|> index) = indexAfter l rows index := by
  unfold indexAfter
  rcases l.body_eq with hb | hb
  · rw [if_neg (by rw [hpc, hb]; decide), if_neg (by rw [hb]; decide)]; rfl
  · rw [if_pos (by rw [hpc, hb]; decide), if_pos (by rw [hb]; decide)]; rfl

theorem Stands.index_eq {l : Loader R I} {s0 s : St R I} (h : Stands l s0 s) (rows : List R) :
    indexAfter l rows s.index = indexAfter l rows s0.index := by
  unfold Stands at h
  cases hl : s.loads with
  | nil => simp only [hl] at h; rw [h.2.2]
  | cons load earlier =>
    simp only [hl] at h
    rw [h.2.2.2]
    unfold indexAfter
    split_ifs <;> rfl

theorem inv_commitTx {l : Loader R I} {s0 s : St R I} (h : Inv l s0 s) {i : ℕ} {tx : Tx R I}
    (hi : s.sessions i = some tx) (hpc : tx.pc = l.body.length) : Inv l s0 (commitTx s i tx) := by
  have htx := h.tx i tx hi
  have h5 : 5 ≤ tx.pc := by
    rcases l.body_eq with hb | hb <;> rw [hpc, hb] <;> decide
  have hlock := htx.locked (Or.inr (by omega))
  have hcreated := htx.created (by omega)
  refine ⟨?_, fun j txj hj => ?_, ?_⟩
  · rw [commitTx, contents_commit]
    exact htx.unstaged h5
  · simp only [commitTx, endTx, setTx, Function.update_apply] at hj
    split_ifs at hj with he
    have hinv := h.tx j txj hj
    -- another session cannot be past CREATE, and has dropped nothing
    have hno : ¬ (txj.dropped = true ∨ 2 ≤ txj.pc) := by
      intro hl
      have := (hinv.locked hl).symm.trans hlock
      exact he (Option.some.inj this)
    rw [not_or] at hno
    refine txInv_early (by omega) (fun hd => absurd hd hno.1) hinv.unread (fun rows _ hb => ?_)
      (hinv.untouched (by omega)) (hinv.staged (by omega)) (hinv.index_none (by omega))
    rcases hb with hb | hb
    · exact absurd hb hno.1
    · simp only [commitTx, hcreated] at hb
      cases hb
  · have hst := h.stands
    simp only [Stands, commitTx, contents_commit, hcreated]
    refine ⟨htx.inserted (by omega), trivial, ?_, ?_⟩
    · rw [hst.before_eq]; rfl
    · rw [← hst.index_eq, ← indexAfter_done hpc, htx.index]

theorem step_inv (l : Loader R I) (s0 s : St R I) (o : Op) (h : Inv l s0 s) : Inv l s0 (step l s o) := by
  cases o with
  | insert i text =>
    simp only [step]
    split
    · refine inv_set h i _ rfl rfl rfl rfl rfl rfl (fun _ _ hh => hh) fun tx htx => ?_
      cases htx
      exact txInv_begun l _ i text
    · exact h
  | exec i =>
    simp only [step]
    split
    · exact h
    · rename_i tx hi
      split
      · exact h
      · rename_i stmt hstmt
        exact inv_execStmt h hi (pc_eq hstmt)
  | commit i =>
    simp only [step]
    split
    · exact h
    · rename_i tx hi
      split_ifs with hpc
      · exact inv_commitTx h hi hpc
      · exact h
  | abort i => exact inv_endTx h i s.sequence

/-! ## All or nothing -/

/-- the committed tables and the list of committed loads are the same -/
structure SameTables (s s' : St R I) : Prop where
  target : s'.target = s.target
  bak : s'.bak = s.bak
  staging : s'.staging = s.staging
  index : s'.index = s.index
  loads : s'.loads = s.loads

theorem execStmt_tables (l : Loader R I) (s : St R I) (i : ℕ) (tx : Tx R I) (stmt : Stmt) :
    SameTables s (execStmt l s i tx stmt) := by
  cases stmt <;> simp only [execStmt] <;> repeat' split
  all_goals exact ⟨rfl, rfl, rfl, rfl, rfl⟩

/-- a step commits the load of one session that has run the whole body, or leaves the committed tables as they are -/
theorem step_tables (l : Loader R I) (s : St R I) (o : Op) : SameTables s (step l s o) ∨
    ∃ i tx, o = .commit i ∧ s.sessions i = some tx ∧ tx.pc = l.body.length ∧ step l s o = commitTx s i tx := by
  cases o with
  | insert i text =>
    left
    simp only [step]
    split <;> exact ⟨rfl, rfl, rfl, rfl, rfl⟩
  | exec i =>
    left
    simp only [step]
    repeat' split
    · exact ⟨rfl, rfl, rfl, rfl, rfl⟩
    · exact ⟨rfl, rfl, rfl, rfl, rfl⟩
    · exact execStmt_tables l s i _ _
  | commit i =>
    simp only [step]
    split
    · exact Or.inl ⟨rfl, rfl, rfl, rfl, rfl⟩
    · rename_i tx hi
      split_ifs with hpc
      · exact Or.inr ⟨i, tx, rfl, hi, hpc, rfl⟩
      · exact Or.inl ⟨rfl, rfl, rfl, rfl, rfl⟩
  | abort i => exact Or.inl ⟨rfl, rfl, rfl, rfl, rfl⟩

/-! ## The two loaders -/

/-- Start with any target, with or without a backup table, and let any steps of any sessions interleave. Then the
target holds the payload of the last committed load and the backup is what the load before it left (or both are as at
the start), nothing is staged, and a next step either commits the load of one session or leaves every table as it
is. -/
def NeverMix (l : Loader R I) (holds : String → List R → Prop) : Prop :=
  ∀ (target : List R) (bak : Option (List R)) (sequence : ℤ) (index : Option (List I)) (ops : List Op) (s : St R I),
    s = run (step l) (init target bak sequence index) ops →
    (match s.loads with
      | [] => contents s.target = target ∧ s.bak = bak
      | load :: earlier =>
        holds load.text (contents s.target) ∧ contents s.target = load.left ∧ s.bak = some (before target earlier)) ∧
    contents s.staging = [] ∧
    ∀ o, SameTables s (step l s o) ∨
      ∃ i tx, o = .commit i ∧ s.sessions i = some tx ∧
        (step l s o).loads = ⟨tx.text, contents (step l s o).target⟩ :: s.loads

theorem neverMix {l : Loader R I} {holds : String → List R → Prop}
    (hp : ∀ text rows, Payload l text rows → holds text rows) : NeverMix l holds := by
  intro target bak sequence index ops s hs
  have h : Inv l (init target bak sequence index) s :=
    hs ▸ run_inv (step_inv l (init target bak sequence index)) _ ops (inv_init l target bak sequence index)
  refine ⟨?_, h.staging, fun o => ?_⟩
  · have hst := h.stands
    unfold Stands at hst
    have h0 : contents (init target bak sequence index).target = target := contents_ofList target
    split
    · rename_i hl
      simp only [hl, h0] at hst
      exact ⟨hst.1, hst.2.1⟩
    · rename_i load earlier hl
      simp only [hl, h0] at hst
      exact ⟨hp _ _ hst.1, hst.2.1, hst.2.2.1⟩
  · rcases step_tables l s o with hst | ⟨i, tx, ho, hi, -, he⟩
    · exact Or.inl hst
    · refine Or.inr ⟨i, tx, ho, hi, ?_⟩
      rw [he, commitTx, contents_commit]

/-- **Concurrent loads never mix**, for both loaders: lots is one row for each element of the last committed text,
schools_daycares is the set of its distinct records, and the backup is what the load before it left. -/
theorem concurrent_loads_never_mix (pg : Pg) :
    NeverMix (loadLots pg) (fun text => HoldsLots pg [text]) ∧
    NeverMix (loadSchoolsDaycares pg) fun text => HoldsSchoolsDaycares pg [text] := by
  refine ⟨neverMix fun text rows hp => ?_, neverMix fun text rows hp => ?_⟩
  · obtain ⟨seq, seq', hsel, hins⟩ := hp
    exact holdsLots_of_select hsel hins
  · obtain ⟨seq, seq', hsel, hins⟩ := hp
    exact holdsSchoolsDaycares_of_select hsel hins

/-- with no backup table yet, two sessions reach CREATE together: the second waits, and fails once the first commits -/
example :
    let s := run (step (loadLots samplePg)) (init [] none 0 none)
      [.insert 0 "[\x7b\"lotNumber\": \"A1\"\x7d]", .insert 1 "[\x7b\"lotNumber\": \"B2\"\x7d]", .exec 0, .exec 1, .exec 0,
        .exec 1, .exec 0, .exec 1, .exec 0, .exec 0, .exec 0, .commit 0, .exec 1]
    contents s.target = [⟨1, some "A1", none, none, none⟩] ∧ s.bak = some [] ∧ (s.sessions 1).isNone := by
  decide

end IconSetup.ConcurrentLoads
