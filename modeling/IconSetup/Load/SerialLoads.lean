/-
Concurrent loads against single ones. The sessions of `ConcurrentLoads` interleave their statements; here their work is
compared with a history of loads that run one after the other, each INSERT a statement of its own (`Loaders.load`) in a
transaction that commits or is undone. An undone load still uses up its numbers of the sequence.

Only the INSERT of the trigger body takes numbers, and a session reaches it with the lock on the backup table in hand.
So the history is the list of these INSERTs in the order in which they ran, each committed if its session has been.

- `SerialInv`: the committed tables are those of the history, and a session past its INSERT is the last entry of it.
- `concurrent_loads_serializable`: for both loaders and every interleaving, target, backup, staging table, index and
  sequence are what the history leaves, and the committed entries are the committed loads in the order of their commits.
- `concurrent_lot_ids`: every lot of a committed load has a greater id than every lot of an earlier one.
-/
import Mathlib.Tactic
import IconSetup.Core.Run
import IconSetup.Core.ReadCommitted
import IconSetup.Load.Loaders
import IconSetup.Load.LotIds
import IconSetup.Load.ConcurrentLoads

namespace IconSetup.SerialLoads

open IconSetup.Run IconSetup.ReadCommitted IconSetup.ConcurrentLoads
open IconSetup.Loaders hiding step exec

variable {R I : Type}

/-! ## One load after the other -/

/-- INSERT of one text into the staging table, in a transaction that commits or is undone -/
structure Entry where
  text : String
  commit : Bool
deriving DecidableEq, Repr

def serial (l : Loader R I) (db : Db R I) (e : Entry) : Db R I :=
  match Loaders.load l db [e.text] with
  | .ok db' => if e.commit then db' else { db with sequence := db'.sequence }
  | .error seq => { db with sequence := seq }

/-- what is committed -/
def tables (s : St R I) : Db R I := ⟨contents s.target, s.bak, contents s.staging, s.sequence, s.index⟩

def committedTexts (history : List Entry) : List String := (history.filter (·.commit)).map Entry.text

theorem committedTexts_append (a b : List Entry) :
    committedTexts (a ++ b) = committedTexts a ++ committedTexts b := by
  rw [committedTexts, List.filter_append, List.map_append]
  rfl

/-- a session past its INSERT, as the last entry of the history -/
def LastEntry (l : Loader R I) (db0 : Db R I) (history : List Entry) (s : St R I) (tx : Tx R I) : Prop :=
  ∃ earlier, history = earlier ++ [⟨tx.text, false⟩] ∧
    Loaders.load l (run (serial l) db0 earlier) [tx.text] =
      .ok ⟨visible s.target tx.target, some (contents s.target), [], s.sequence,
        indexAfter l (visible s.target tx.target) s.index⟩

structure SerialInv (l : Loader R I) (db0 : Db R I) (history : List Entry) (s : St R I) : Prop where
  tables : tables s = run (serial l) db0 history
  loads : committedTexts history = s.loads.reverse.map Load.text
  last : ∀ i tx, s.sessions i = some tx → 4 ≤ tx.pc → LastEntry l db0 history s tx

theorem serialInv_init (l : Loader R I) (target : List R) (bak : Option (List R)) (sequence : ℤ)
    (index : Option (List I)) :
    SerialInv l ⟨target, bak, [], sequence, index⟩ [] (init target bak sequence index) where
  tables := by simp only [tables, init, contents_ofList, run_nil]
  loads := rfl
  last := fun i tx h => by cases h

section
variable {l : Loader R I} {db0 : Db R I} {history : List Entry} {s s' : St R I}

/-- session `i` moves, and no table and no number is touched; a session past its INSERT keeps what it sees -/
theorem SerialInv.move (h : SerialInv l db0 history s) (hst : SameTables s s') (hseq : s'.sequence = s.sequence)
    (hsess : ∀ j tx', s'.sessions j = some tx' → 4 ≤ tx'.pc → ∃ tx, s.sessions j = some tx ∧ 4 ≤ tx.pc ∧
      tx'.text = tx.text ∧ visible s.target tx'.target = visible s.target tx.target) :
    SerialInv l db0 history s' where
  tables := by
    rw [← h.tables, SerialLoads.tables, SerialLoads.tables, hst.target, hst.bak, hst.staging, hst.index, hseq]
  loads := by rw [hst.loads]; exact h.loads
  last := by
    intro j tx' hj hpc
    obtain ⟨tx, hs, hpc0, htext, hvis⟩ := hsess j tx' hj hpc
    obtain ⟨earlier, he, hload⟩ := h.last j tx hs hpc0
    refine ⟨earlier, by rw [htext]; exact he, ?_⟩
    rw [htext, hst.target, hst.index, hseq, hvis]
    exact hload

/-- the sessions of `s'` are those of `s`, but for session `i`, which has ended or has not come to its INSERT -/
theorem SerialInv.moveEarly (h : SerialInv l db0 history s) {i : ℕ} {t : Option (Tx R I)}
    (hst : SameTables s s') (hseq : s'.sequence = s.sequence)
    (hsess : s'.sessions = Function.update s.sessions i t) (hpc : ∀ tx ∈ t, tx.pc < 4) :
    SerialInv l db0 history s' := by
  refine h.move hst hseq fun j txj hj h4 => ?_
  rw [hsess, Function.update_apply] at hj
  split_ifs at hj with he
  · have := hpc txj hj
    omega
  · exact ⟨txj, hj, h4, rfl, rfl⟩

/-- session `i` goes on after its INSERT, and still sees the same rows in the target -/
theorem SerialInv.moveLate (h : SerialInv l db0 history s) {i : ℕ} {tx tx' : Tx R I} (hi : s.sessions i = some tx)
    (hpc : 4 ≤ tx.pc) (hst : SameTables s s') (hseq : s'.sequence = s.sequence)
    (hsess : s'.sessions = Function.update s.sessions i (some tx')) (htext : tx'.text = tx.text)
    (htarget : tx'.target = tx.target) : SerialInv l db0 history s' := by
  refine h.move hst hseq fun j txj hj h4 => ?_
  rw [hsess, Function.update_apply] at hj
  split_ifs at hj with he
  · cases hj
    rw [he]
    exact ⟨tx, hi, hpc, htext, by rw [htarget]⟩
  · exact ⟨txj, hj, h4, rfl, rfl⟩

/-- two sessions cannot both be past CREATE -/
theorem late_unique {s0 : St R I} (hinv : Inv l s0 s) {i j : ℕ} {tx txj : Tx R I} (hi : s.sessions i = some tx)
    (hpc : 2 ≤ tx.pc) (hj : s.sessions j = some txj) (hpcj : 2 ≤ txj.pc) : j = i := by
  have hli := (hinv.tx i tx hi).locked (Or.inr hpc)
  have hlj := (hinv.tx j txj hj).locked (Or.inr hpcj)
  exact Option.some.inj (hlj.symm.trans hli)

theorem SerialInv.endTx (h : SerialInv l db0 history s) (i : ℕ) : SerialInv l db0 history (endTx s i) :=
  h.moveEarly (i := i) (t := none) ⟨rfl, rfl, rfl, rfl, rfl⟩ rfl rfl fun tx htx => by cases htx

/-! ## The INSERT of the trigger body -/

theorem run_staging {s0 : St R I} (hinv : Inv l s0 s) (h : SerialInv l db0 history s) :
    (run (serial l) db0 history).staging = [] := by
  rw [← h.tables]
  exact hinv.staging

/-- the load that fails, and the one that is not committed yet, leave only a gap in the sequence -/
theorem serial_undone {db : Db R I} {text : String} {seq : ℤ}
    (h : Loaders.load l db [text] = .error seq ∨ ∃ db', Loaders.load l db [text] = .ok db' ∧ db'.sequence = seq) :
    serial l db ⟨text, false⟩ = { db with sequence := seq } := by
  rcases h with h | ⟨db', h, rfl⟩
  · rw [serial, h]
  · rw [serial, h]
    rfl

/-- session `i` takes its numbers: a new last entry, not committed -/
theorem SerialInv.draw {s0 : St R I} (hinv : Inv l s0 s) (h : SerialInv l db0 history s) {i : ℕ} {tx : Tx R I}
    (hi : s.sessions i = some tx) (hpc : tx.pc = 3) {seq : ℤ} {tx' : Option (Tx R I)}
    (hundone : serial l (run (serial l) db0 history) ⟨tx.text, false⟩ =
      { run (serial l) db0 history with sequence := seq })
    (hst : SameTables s s') (hseq : s'.sequence = seq) (hsess : s'.sessions = Function.update s.sessions i tx')
    (hlast : ∀ txi ∈ tx', 4 ≤ txi.pc → LastEntry l db0 (history ++ [⟨tx.text, false⟩]) s' txi) :
    SerialInv l db0 (history ++ [⟨tx.text, false⟩]) s' where
  tables := by
    rw [run_append, run_cons, run_nil, hundone, ← h.tables, SerialLoads.tables, SerialLoads.tables, hst.target,
      hst.bak, hst.staging, hst.index, hseq]
  loads := by
    rw [committedTexts_append, h.loads, hst.loads]
    exact List.append_nil _
  last := by
    intro j txj hj h4
    rw [hsess, Function.update_apply] at hj
    split_ifs at hj with he
    · exact hlast txj hj h4
    · exact absurd (late_unique hinv hi (by omega) hj (by omega)) he

theorem serial_insertTarget {s0 : St R I} (hinv : Inv l s0 s) (h : SerialInv l db0 history s) {i : ℕ} {tx : Tx R I}
    (hi : s.sessions i = some tx) (hpc : tx.pc = 3) :
    SerialInv l db0 (history ++ [⟨tx.text, false⟩]) (execStmt l s i tx .insertTarget) := by
  have htx := hinv.tx i tx hi
  have hstaged : visible s.staging tx.staging = [tx.text] := by
    rw [htx.staged (by omega), visible_born, hinv.staging, List.nil_append]
  -- the serial load runs on the committed tables and the same value of the sequence
  have hload := load_one l (run_staging hinv h) tx.text
  have hsequence : (run (serial l) db0 history).sequence = s.sequence := by rw [← h.tables]; rfl
  have htarget : (run (serial l) db0 history).target = contents s.target := by rw [← h.tables]; rfl
  have hindex : (run (serial l) db0 history).index = s.index := by rw [← h.tables]; rfl
  rw [hsequence, htarget, hindex] at hload
  simp only [execStmt, hstaged, htx.deleted hpc]
  rcases hsel : l.select [tx.text] s.sequence with ⟨_ | rows, seq⟩
  · simp only [hsel] at hload ⊢
    exact SerialInv.draw hinv h hi hpc (serial_undone (Or.inl hload)) ⟨rfl, rfl, rfl, rfl, rfl⟩ rfl rfl
      fun txi htxi => by cases htxi
  · simp only [hsel] at hload ⊢
    cases hins : l.insert [] rows with
    | none =>
      simp only [hins] at hload ⊢
      exact SerialInv.draw hinv h hi hpc (serial_undone (Or.inl hload)) ⟨rfl, rfl, rfl, rfl, rfl⟩ rfl rfl
        fun txi htxi => by cases htxi
    | some target =>
      simp only [hins] at hload ⊢
      refine SerialInv.draw hinv h hi hpc (serial_undone (Or.inr ⟨_, hload, rfl⟩)) ⟨rfl, rfl, rfl, rfl, rfl⟩ rfl rfl ?_
      intro txi htxi _
      cases htxi
      have hvis : visible s.target (tx.target.insert rows) = target := by
        rw [visible_insert, htx.deleted hpc, List.nil_append, l.insert_append _ _ _ hins, List.nil_append]
      refine ⟨history, rfl, ?_⟩
      simp only [setTx, hvis]
      exact hload

/-! ## Steps -/

theorem serial_execStmt {s0 : St R I} (hinv : Inv l s0 s) (h : SerialInv l db0 history s) {i : ℕ} {tx : Tx R I}
    {stmt : Stmt} (hi : s.sessions i = some tx) (hpc : tx.pc = position stmt) :
    ∃ history', SerialInv l db0 history' (execStmt l s i tx stmt) := by
  have hst := execStmt_tables l s i tx stmt
  cases stmt with
  | dropBak =>
    refine ⟨history, ?_⟩
    have hpc : tx.pc = 0 := hpc
    simp only [execStmt] at hst ⊢
    split
    · exact h.moveEarly ⟨rfl, rfl, rfl, rfl, rfl⟩ rfl rfl fun tx' htx' => by cases htx'; simp only; omega
    · split_ifs
      · exact h.moveEarly ⟨rfl, rfl, rfl, rfl, rfl⟩ rfl rfl fun tx' htx' => by cases htx'; simp only; omega
      · exact h
  | createBak =>
    refine ⟨history, ?_⟩
    have hpc : tx.pc = 1 := hpc
    simp only [execStmt] at hst ⊢
    split
    · exact h.moveEarly ⟨rfl, rfl, rfl, rfl, rfl⟩ rfl rfl fun tx' htx' => by cases htx'; simp only; omega
    · split_ifs
      · exact h.endTx i
      · exact h.moveEarly ⟨rfl, rfl, rfl, rfl, rfl⟩ rfl rfl fun tx' htx' => by cases htx'; simp only; omega
      · exact h
  | deleteTarget =>
    have hpc : tx.pc = 2 := hpc
    exact ⟨history, h.moveEarly hst rfl rfl fun tx' htx' => by cases htx'; simp only; omega⟩
  | insertTarget => exact ⟨_, serial_insertTarget hinv h hi hpc⟩
  | deleteStaging =>
    have hpc : tx.pc = 4 := hpc
    exact ⟨history, h.moveLate hi (by omega) hst rfl rfl rfl rfl⟩
  | refreshIndex =>
    have hpc : tx.pc = 5 := hpc
    exact ⟨history, h.moveLate hi (by omega) hst rfl rfl rfl rfl⟩

/-- a commit turns the last entry into a committed one -/
theorem serial_commitTx {s0 : St R I} (hinv : Inv l s0 s) (h : SerialInv l db0 history s) {i : ℕ} {tx : Tx R I}
    (hi : s.sessions i = some tx) (hpc : tx.pc = l.body.length) :
    ∃ history', SerialInv l db0 history' (commitTx s i tx) := by
  have htx := hinv.tx i tx hi
  have h5 : 5 ≤ tx.pc := by
    rcases l.body_eq with hb | hb <;> rw [hpc, hb] <;> decide
  obtain ⟨earlier, hhistory, hload⟩ := h.last i tx hi (by omega)
  refine ⟨earlier ++ [⟨tx.text, true⟩], ?_, ?_, ?_⟩
  · have hdone : serial l (run (serial l) db0 earlier) ⟨tx.text, true⟩ =
        ⟨visible s.target tx.target, some (contents s.target), [], s.sequence,
          indexAfter l (visible s.target tx.target) s.index⟩ := by
      rw [serial, hload]
      rfl
    have hstaging : contents (commit s.staging tx.staging) = [] := by
      rw [contents_commit]
      exact htx.unstaged h5
    rw [run_append, run_cons, run_nil, hdone, tables]
    simp only [commitTx, contents_commit, htx.created (by omega), htx.unstaged h5]
    congr 1
    rw [← indexAfter_done hpc, htx.index]
  · have hearlier : committedTexts earlier = s.loads.reverse.map Load.text := by
      rw [← h.loads, hhistory, committedTexts_append]
      exact (List.append_nil _).symm
    rw [committedTexts_append, hearlier]
    simp [committedTexts, commitTx]
  · intro j txj hj h4
    simp only [commitTx, endTx, setTx, Function.update_apply] at hj
    split_ifs at hj with he
    exact absurd (late_unique hinv hi (by omega) hj (by omega)) he

theorem serial_step {s0 : St R I} (hinv : Inv l s0 s) (h : SerialInv l db0 history s) (o : Op) :
    ∃ history', SerialInv l db0 history' (step l s o) := by
  cases o with
  | insert i text =>
    refine ⟨history, ?_⟩
    simp only [step]
    split
    · exact h.moveEarly ⟨rfl, rfl, rfl, rfl, rfl⟩ rfl rfl fun tx htx => by cases htx; simp [begun]
    · exact h
  | exec i =>
    simp only [step]
    split
    · exact ⟨history, h⟩
    · rename_i tx hi
      split
      · exact ⟨history, h⟩
      · rename_i stmt hstmt
        exact serial_execStmt hinv h hi (pc_eq hstmt)
  | commit i =>
    simp only [step]
    split
    · exact ⟨history, h⟩
    · rename_i tx hi
      split_ifs with hpc
      · exact serial_commitTx hinv h hi hpc
      · exact ⟨history, h⟩
  | abort i => exact ⟨history, h.endTx i⟩

theorem serial_run {s0 : St R I} (hinv : Inv l s0 s) (h : SerialInv l db0 history s) (ops : List Op) :
    ∃ history', SerialInv l db0 history' (run (step l) s ops) := by
  have hstep : ∀ s o, (Inv l s0 s ∧ ∃ history, SerialInv l db0 history s) →
      Inv l s0 (step l s o) ∧ ∃ history, SerialInv l db0 history (step l s o) := by
    rintro s o ⟨hinv, history, h⟩
    exact ⟨step_inv l s0 s o hinv, serial_step hinv h o⟩
  exact (run_inv hstep s ops ⟨hinv, history, h⟩).2

end

/-! ## The two loaders -/

/-- Every interleaving has a history of single loads that leaves the same tables and the same sequence, and commits the
same texts in the same order. -/
def Serializable (l : Loader R I) : Prop :=
  ∀ (target : List R) (bak : Option (List R)) (sequence : ℤ) (index : Option (List I)) (ops : List Op),
    ∃ history : List Entry,
      tables (run (step l) (init target bak sequence index) ops) =
          run (serial l) ⟨target, bak, [], sequence, index⟩ history ∧
        committedTexts history = (run (step l) (init target bak sequence index) ops).loads.reverse.map Load.text

theorem serializable (l : Loader R I) : Serializable l := by
  intro target bak sequence index ops
  obtain ⟨history, h⟩ := serial_run (inv_init l target bak sequence index)
    (serialInv_init l target bak sequence index) ops
  exact ⟨history, h.tables, h.loads⟩

/-- **Concurrent loads are serializable**, for both loaders: whatever the sessions interleave, target, backup, staging
table, index and sequence are those of loads that ran one after the other, with the committed texts in the order of
their commits. -/
theorem concurrent_loads_serializable (pg : Pg) :
    Serializable (loadLots pg) ∧ Serializable (loadSchoolsDaycares pg) :=
  ⟨serializable (loadLots pg), serializable (loadSchoolsDaycares pg)⟩

/-! ## Ids of lots -/

/-- every lot of `next` has a greater id than every lot of `prev` -/
def Above (next prev : Load Lot) : Prop := ∀ a ∈ next.left, ∀ b ∈ prev.left, b.lotId < a.lotId

structure IdsInv (s : St Lot Unit) : Prop where
  pairwise : s.loads.Pairwise Above
  nodup : ∀ load ∈ s.loads, (load.left.map Lot.lotId).Nodup
  bound : ∀ load ∈ s.loads, ∀ lot ∈ load.left, lot.lotId ≤ s.sequence
  /-- what a session has inserted lies above all committed loads -/
  drawn : ∀ i tx, s.sessions i = some tx → 4 ≤ tx.pc →
    (∀ a ∈ visible s.target tx.target, a.lotId ≤ s.sequence ∧ ∀ load ∈ s.loads, ∀ b ∈ load.left, b.lotId < a.lotId) ∧
      ((visible s.target tx.target).map Lot.lotId).Nodup

section
variable {pg : Pg} {s s' : St Lot Unit}

/-- no load is committed, the sequence does not go back, and each session past its INSERT was so before, or has just
drawn its numbers -/
theorem IdsInv.move (h : IdsInv s) (hloads : s'.loads = s.loads) (hseq : s.sequence ≤ s'.sequence)
    (hsess : ∀ j tx', s'.sessions j = some tx' → 4 ≤ tx'.pc →
      (∃ tx, s.sessions j = some tx ∧ 4 ≤ tx.pc ∧ visible s'.target tx'.target = visible s.target tx.target) ∨
      ((∀ a ∈ visible s'.target tx'.target, s.sequence < a.lotId ∧ a.lotId ≤ s'.sequence) ∧
        ((visible s'.target tx'.target).map Lot.lotId).Nodup)) : IdsInv s' where
  pairwise := by rw [hloads]; exact h.pairwise
  nodup := by rw [hloads]; exact h.nodup
  bound := by
    rw [hloads]
    intro load hload lot hlot
    exact (h.bound load hload lot hlot).trans hseq
  drawn := by
    rw [hloads]
    intro j tx' hj hpc
    rcases hsess j tx' hj hpc with ⟨tx, hs, hpc0, hvis⟩ | ⟨hnew, hnodup⟩
    · obtain ⟨hd, hn⟩ := h.drawn j tx hs hpc0
      rw [hvis]
      exact ⟨fun a ha => ⟨(hd a ha).1.trans hseq, (hd a ha).2⟩, hn⟩
    · refine ⟨fun a ha => ⟨(hnew a ha).2, fun load hload b hb => ?_⟩, hnodup⟩
      calc b.lotId ≤ s.sequence := h.bound load hload b hb
        _ < a.lotId := (hnew a ha).1

theorem IdsInv.moveEarly (h : IdsInv s) {i : ℕ} {t : Option (Tx Lot Unit)} (hst : SameTables s s')
    (hseq : s.sequence ≤ s'.sequence) (hsess : s'.sessions = Function.update s.sessions i t)
    (hpc : ∀ tx ∈ t, tx.pc < 4) : IdsInv s' := by
  refine h.move hst.loads hseq fun j txj hj h4 => ?_
  rw [hsess, Function.update_apply] at hj
  split_ifs at hj with he
  · have := hpc txj hj
    omega
  · exact Or.inl ⟨txj, hj, h4, by rw [hst.target]⟩

theorem IdsInv.moveLate (h : IdsInv s) {i : ℕ} {tx tx' : Tx Lot Unit} (hi : s.sessions i = some tx) (hpc : 4 ≤ tx.pc)
    (hst : SameTables s s') (hseq : s'.sequence = s.sequence)
    (hsess : s'.sessions = Function.update s.sessions i (some tx')) (htarget : tx'.target = tx.target) : IdsInv s' := by
  refine h.move hst.loads (le_of_eq hseq.symm) fun j txj hj h4 => Or.inl ?_
  rw [hsess, Function.update_apply] at hj
  split_ifs at hj with he
  · cases hj
    rw [he]
    exact ⟨tx, hi, hpc, by rw [htarget, hst.target]⟩
  · exact ⟨txj, hj, h4, by rw [hst.target]⟩

theorem IdsInv.endTx (h : IdsInv s) (i : ℕ) {seq : ℤ} (hseq : s.sequence ≤ seq) :
    IdsInv { endTx s i with sequence := seq } :=
  h.moveEarly (i := i) (t := none) ⟨rfl, rfl, rfl, rfl, rfl⟩ hseq rfl fun tx htx => by cases htx

/-- the numbers that a session draws lie above the sequence as it was -/
theorem ids_insertTarget {s0 : St Lot Unit} (hinv : Inv (loadLots pg) s0 s) (h : IdsInv s) {i : ℕ}
    {tx : Tx Lot Unit} (hi : s.sessions i = some tx) (hpc : tx.pc = 3) :
    IdsInv (execStmt (loadLots pg) s i tx .insertTarget) := by
  have htx := hinv.tx i tx hi
  have hstaged : visible s.staging tx.staging = [tx.text] := by
    rw [htx.staged (by omega), visible_born, hinv.staging, List.nil_append]
  have hle : s.sequence ≤ (selectLots pg [tx.text] s.sequence).2 :=
    (LotIds.idsTaken_bounds ⟨[], none, [], s.sequence, none⟩ tx.text).1
  have hselect : (loadLots pg).select [tx.text] s.sequence = selectLots pg [tx.text] s.sequence := rfl
  simp only [execStmt, hstaged, htx.deleted hpc, hselect]
  rcases hsel : selectLots pg [tx.text] s.sequence with ⟨_ | rows, seq⟩
  · rw [hsel] at hle
    exact h.endTx i hle
  · rw [hsel] at hle
    simp only
    split
    · exact h.endTx i hle
    · -- the rows of one array carry the numbers that follow the sequence
      obtain ⟨js, hjs⟩ : ∃ js, lotRows pg js s.sequence = (some rows, seq) := by
        rw [LotIds.selectLots_single] at hsel
        cases hjs : pg.elements tx.text with
        | none => rw [hjs] at hsel; cases hsel
        | some js => rw [hjs] at hsel; exact ⟨js, hsel⟩
      obtain ⟨-, hbounds, hpairwise⟩ := lotRows_ids pg js s.sequence seq rows hjs
      have hvis : visible s.target (tx.target.insert rows) = rows := by
        rw [visible_insert, htx.deleted hpc, List.nil_append]
      refine h.move rfl hle fun j txj hj h4 => ?_
      simp only [setTx, Function.update_apply] at hj ⊢
      split_ifs at hj with he
      · cases hj
        right
        rw [hvis]
        exact ⟨hbounds, hpairwise.imp fun hlt => ne_of_lt hlt⟩
      · exact Or.inl ⟨txj, hj, h4, rfl⟩

theorem ids_execStmt {s0 : St Lot Unit} (hinv : Inv (loadLots pg) s0 s) (h : IdsInv s) {i : ℕ} {tx : Tx Lot Unit}
    {stmt : Stmt} (hi : s.sessions i = some tx) (hpc : tx.pc = position stmt) :
    IdsInv (execStmt (loadLots pg) s i tx stmt) := by
  have hst := execStmt_tables (loadLots pg) s i tx stmt
  cases stmt with
  | dropBak =>
    have hpc : tx.pc = 0 := hpc
    simp only [execStmt]
    split
    · exact h.moveEarly ⟨rfl, rfl, rfl, rfl, rfl⟩ (le_refl _) rfl fun tx' htx' => by cases htx'; simp only; omega
    · split_ifs
      · exact h.moveEarly ⟨rfl, rfl, rfl, rfl, rfl⟩ (le_refl _) rfl fun tx' htx' => by cases htx'; simp only; omega
      · exact h
  | createBak =>
    have hpc : tx.pc = 1 := hpc
    simp only [execStmt]
    split
    · exact h.moveEarly ⟨rfl, rfl, rfl, rfl, rfl⟩ (le_refl _) rfl fun tx' htx' => by cases htx'; simp only; omega
    · split_ifs
      · exact h.endTx i (le_refl _)
      · exact h.moveEarly ⟨rfl, rfl, rfl, rfl, rfl⟩ (le_refl _) rfl fun tx' htx' => by cases htx'; simp only; omega
      · exact h
  | deleteTarget =>
    have hpc : tx.pc = 2 := hpc
    exact h.moveEarly hst (le_refl _) rfl fun tx' htx' => by cases htx'; simp only; omega
  | insertTarget => exact ids_insertTarget hinv h hi hpc
  | deleteStaging =>
    have hpc : tx.pc = 4 := hpc
    exact h.moveLate hi (by omega) hst rfl rfl rfl
  | refreshIndex =>
    have hpc : tx.pc = 5 := hpc
    exact h.moveLate hi (by omega) hst rfl rfl rfl

theorem ids_commitTx {s0 : St Lot Unit} (hinv : Inv (loadLots pg) s0 s) (h : IdsInv s) {i : ℕ} {tx : Tx Lot Unit}
    (hi : s.sessions i = some tx) (hpc : tx.pc = (loadLots pg).body.length) : IdsInv (commitTx s i tx) := by
  have hpc : tx.pc = 5 := hpc
  obtain ⟨hdrawn, hnodup⟩ := h.drawn i tx hi (by omega)
  refine ⟨?_, ?_, ?_, ?_⟩
  · exact List.pairwise_cons.2 ⟨fun load hload a ha b hb => (hdrawn a ha).2 load hload b hb, h.pairwise⟩
  · intro load hload
    rcases List.mem_cons.1 hload with rfl | hload
    · exact hnodup
    · exact h.nodup load hload
  · intro load hload lot hlot
    rcases List.mem_cons.1 hload with rfl | hload
    · exact (hdrawn lot hlot).1
    · exact h.bound load hload lot hlot
  · intro j txj hj h4
    simp only [commitTx, ConcurrentLoads.endTx, setTx, Function.update_apply] at hj
    split_ifs at hj with he
    exact absurd (late_unique hinv hi (by omega) hj (by omega)) he

theorem ids_step {s0 : St Lot Unit} (hinv : Inv (loadLots pg) s0 s) (h : IdsInv s) (o : Op) :
    IdsInv (step (loadLots pg) s o) := by
  cases o with
  | insert i text =>
    simp only [step]
    split
    · exact h.moveEarly ⟨rfl, rfl, rfl, rfl, rfl⟩ (le_refl _) rfl fun tx htx => by cases htx; simp [begun]
    · exact h
  | exec i =>
    simp only [step]
    split
    · exact h
    · rename_i tx hi
      split
      · exact h
      · rename_i stmt hstmt
        exact ids_execStmt hinv h hi (pc_eq hstmt)
  | commit i =>
    simp only [step]
    split
    · exact h
    · rename_i tx hi
      split_ifs with hpc
      · exact ids_commitTx hinv h hi hpc
      · exact h
  | abort i => exact h.endTx i (le_refl _)

end

/-- **No lot id is used twice by committed loads**, however the sessions interleave and whichever of them fail: the lots
of one load have different ids, and all of them are greater than every id of every load committed before it. -/
theorem concurrent_lot_ids (pg : Pg) (target : List Lot) (bak : Option (List Lot)) (sequence : ℤ)
    (index : Option (List Unit)) (ops : List Op) :
    (run (step (loadLots pg)) (init target bak sequence index) ops).loads.Pairwise Above ∧
      ∀ load ∈ (run (step (loadLots pg)) (init target bak sequence index) ops).loads,
        (load.left.map Lot.lotId).Nodup := by
  have hstart : IdsInv (init target bak sequence index) := by
    refine ⟨List.Pairwise.nil, ?_, ?_, fun i tx htx => by cases htx⟩
    · exact fun load hload => absurd hload List.not_mem_nil
    · exact fun load hload => absurd hload List.not_mem_nil
  have hstep : ∀ s o, (Inv (loadLots pg) (init target bak sequence index) s ∧ IdsInv s) →
      Inv (loadLots pg) (init target bak sequence index) (step (loadLots pg) s o) ∧ IdsInv (step (loadLots pg) s o) :=
    fun s o h => ⟨step_inv _ _ s o h.1, ids_step h.1 h.2 o⟩
  have hrun := run_inv hstep _ ops ⟨inv_init (loadLots pg) target bak sequence index, hstart⟩
  exact ⟨hrun.2.pairwise, hrun.2.nodup⟩

end IconSetup.SerialLoads
