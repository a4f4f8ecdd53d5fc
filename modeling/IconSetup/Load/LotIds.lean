/-
The ids of lots along a run of single-row loads, each committed or aborted, over seed lots that were copied in with
ids of their own. The copy does not touch the sequence of lots.lot_id, so the sequence may start anywhere, below the seed
ids too (5_Lookup_Data.sql sets it after its copy). A number taken from the sequence is never given back, also when the
load fails or is aborted.

- `lotRows_taken`: the rows of a load carry the ids that its elements take.
- `no_clash`: when the trigger function inserts, the target is empty and the new ids differ, so lots_pkey holds.
- `sequence_le`: the sequence never goes back.
- `lot_ids_never_clash`: along every run no load fails on lots_pkey, a successful load leaves one lot for each element
  with an id of its own, and every id is greater than every id taken by an earlier load.
-/
import Mathlib.Tactic
import IconSetup.Core.Run
import IconSetup.Load.Loaders
import IconSetup.Load.WholePayload

namespace IconSetup.LotIds

open IconSetup.Run IconSetup.Fallible IconSetup.Dml IconSetup.Loaders
open IconSetup.WholePayload (SaysLot lotRecord_iff)

/-! ## Runs of loads -/

/-- INSERT of one text into load_lots, in a transaction that commits or aborts -/
structure LotsLoad where
  text : String
  commit : Bool
deriving DecidableEq, Repr

/-- the lots that the seed script copies in; the sequence of lot_id stands wherever it stands -/
def seeded (seeds : List Lot) (bak : Option (List Lot)) (sequence : ℤ) : Db Lot Unit := ⟨seeds, bak, [], sequence, none⟩

def transaction (pg : Pg) (db : Db Lot Unit) (l : LotsLoad) : Db Lot Unit :=
  match load (loadLots pg) db [l.text] with
  | .ok db' => if l.commit then db' else { db with sequence := db'.sequence }
  | .error seq => { db with sequence := seq }

/-- the ids that the elements of an array take, up to the one at which the SELECT fails -/
def rowIds (pg : Pg) : List pg.Json → ℤ → List ℤ
  | [], _ => []
  | values :: rest, seq =>
    match nextLotId seq with
    | none => []
    | some id =>
      match lotRecord pg values with
      | none => [id]
      | some _ => id :: rowIds pg rest (seq + 1)

/-- the ids that a load of the text takes, whether it succeeds or not -/
def idsTaken (pg : Pg) (db : Db Lot Unit) (text : String) : List ℤ :=
  match pg.elements text with
  | none => []
  | some js => rowIds pg js db.sequence

/-- The INSERT of the trigger function gets its rows, and the constraints of the target refuse them. -/
def Clashes {R I : Type} (l : Loader R I) (db : Db R I) (texts : List String) : Prop :=
  ∃ mid rows seq,
    (l.body.takeWhile (· ≠ .insertTarget)).foldlM (exec l) { db with staging := db.staging ++ texts } = .ok mid ∧
      l.select mid.staging mid.sequence = (some rows, seq) ∧ l.insert mid.target rows = none

/-! ## One load -/

section
variable {pg : Pg}

theorem selectLots_single (text : String) (seq : ℤ) : selectLots pg [text] seq =
    match pg.elements text with
    | none => (none, seq)
    | some js => lotRows pg js seq := by
  simp only [selectLots]
  cases pg.elements text with
  | none => rfl
  | some js =>
    simp only
    rcases lotRows pg js seq with ⟨_ | rows, seq'⟩
    · rfl
    · simp

/-- rows that were selected have the ids that their elements took -/
theorem lotRows_taken {js : List pg.Json} {seq seq' : ℤ} {rows : List Lot} (h : lotRows pg js seq = (some rows, seq')) :
    rows.map Lot.lotId = rowIds pg js seq := by
  induction js generalizing seq rows with
  | nil => cases h; rfl
  | cons values rest ih =>
    obtain ⟨record, rows', hid, hrec, hrest, rfl⟩ := lotRows_cons h
    simp only [rowIds, hid, hrec, List.map_cons, ih hrest]

/-- where the sequence stands after an array -/
theorem lotRows_sequence (values : pg.Json) (rest : List pg.Json) (seq : ℤ) : (lotRows pg (values :: rest) seq).2 =
    match nextLotId seq, lotRecord pg values with
    | some _, some _ => (lotRows pg rest (seq + 1)).2
    | _, _ => seq + 1 := by
  simp only [lotRows]
  cases nextLotId seq with
  | none => rfl
  | some id =>
    cases lotRecord pg values with
    | none => rfl
    | some record => rcases lotRows pg rest (seq + 1) with ⟨_ | rows, seq'⟩ <;> rfl

/-- the ids lie past the old value of the sequence, and up to its new one -/
theorem rowIds_bounds (js : List pg.Json) (seq : ℤ) :
    seq ≤ (lotRows pg js seq).2 ∧ ∀ i ∈ rowIds pg js seq, seq < i ∧ i ≤ (lotRows pg js seq).2 := by
  induction js generalizing seq with
  | nil => exact ⟨le_refl seq, fun i hi => absurd hi List.not_mem_nil⟩
  | cons values rest ih =>
    obtain ⟨hle, hbound⟩ := ih (seq + 1)
    rw [lotRows_sequence, rowIds]
    cases hid : nextLotId seq with
    | none => exact ⟨by simp, fun i hi => absurd hi List.not_mem_nil⟩
    | some id =>
      have hnext := nextLotId_eq hid
      subst hnext
      cases lotRecord pg values with
      | none =>
        refine ⟨by simp, fun i hi => ?_⟩
        rw [List.mem_singleton.1 hi]
        exact ⟨by simp, le_refl _⟩
      | some record =>
        refine ⟨by simp only; omega, fun i hi => ?_⟩
        rcases List.mem_cons.1 hi with rfl | hi
        · exact ⟨by omega, hle⟩
        · have := hbound i hi
          exact ⟨by omega, this.2⟩

theorem idsTaken_bounds (db : Db Lot Unit) (text : String) :
    db.sequence ≤ (selectLots pg [text] db.sequence).2 ∧
      ∀ i ∈ idsTaken pg db text, db.sequence < i ∧ i ≤ (selectLots pg [text] db.sequence).2 := by
  rw [selectLots_single, idsTaken]
  cases pg.elements text with
  | none => exact ⟨le_refl _, fun i hi => absurd hi List.not_mem_nil⟩
  | some js => exact rowIds_bounds js db.sequence

/-- selected rows have ids that are all different -/
theorem selected_nodup {text : String} {seq seq' : ℤ} {rows : List Lot}
    (h : selectLots pg [text] seq = (some rows, seq')) : (rows.map Lot.lotId).Nodup := by
  rw [selectLots_single] at h
  cases hjs : pg.elements text with
  | none => rw [hjs] at h; cases h
  | some js =>
    rw [hjs] at h
    exact (lotRows_ids pg js seq seq' rows h).2.2.imp fun hlt => ne_of_lt hlt

/-- rows whose ids differ go into an empty target -/
theorem insert_selected {text : String} {seq seq' : ℤ} {rows : List Lot}
    (h : selectLots pg [text] seq = (some rows, seq')) : insertRows Lot.lotId (fun _ => true) [] rows = some rows := by
  obtain ⟨target, ht⟩ := (insertRows_iff Lot.lotId (fun _ => true) [] rows List.nodup_nil).2
    ⟨fun _ _ => rfl, selected_nodup h⟩
  rw [ht, (insertRows_eq _ _ _ _ _ ht).1, List.nil_append]

/-- **The trigger function inserts into an empty target.** The old lots, seeds included, are deleted before the new ids
come in, so no new id meets an old one. -/
theorem no_clash {db : Db Lot Unit} (hs : db.staging = []) (text : String) : ¬ Clashes (loadLots pg) db [text] := by
  rintro ⟨mid, rows, seq, hmid, hsel, hins⟩
  have hbody : (loadLots pg).body.takeWhile (· ≠ .insertTarget) = [.dropBak, .createBak, .deleteTarget] := rfl
  rw [hbody, hs] at hmid
  cases hmid
  have hsel' : selectLots pg [text] db.sequence = (some rows, seq) := hsel
  have hins' : insertRows Lot.lotId (fun _ => true) [] rows = none := hins
  rw [insert_selected hsel'] at hins'
  cases hins'

theorem load_single {db : Db Lot Unit} (hs : db.staging = []) (text : String) : load (loadLots pg) db [text] =
    match selectLots pg [text] db.sequence with
    | (none, seq) => .error seq
    | (some rows, seq) => .ok ⟨rows, some db.target, [], seq, db.index⟩ := by
  rw [load_one (loadLots pg) hs]
  have hselect : (loadLots pg).select [text] db.sequence = selectLots pg [text] db.sequence := rfl
  rw [hselect]
  rcases h : selectLots pg [text] db.sequence with ⟨_ | rows, seq⟩
  · rfl
  · have hins : (loadLots pg).insert [] rows = some rows := insert_selected h
    simp only [hins]
    rfl

theorem transaction_sequence {db : Db Lot Unit} (hs : db.staging = []) (l : LotsLoad) :
    (transaction pg db l).sequence = (selectLots pg [l.text] db.sequence).2 := by
  rw [transaction, load_single hs]
  rcases selectLots pg [l.text] db.sequence with ⟨_ | rows, seq⟩
  · rfl
  · simp only
    split_ifs <;> rfl

/-! ## Runs -/

/-- nothing is staged, and the lots have ids of their own -/
structure Inv (db : Db Lot Unit) : Prop where
  staging : db.staging = []
  ids : (db.target.map Lot.lotId).Nodup

theorem transaction_inv (db : Db Lot Unit) (l : LotsLoad) (h : Inv db) : Inv (transaction pg db l) := by
  rw [transaction, load_single h.staging]
  rcases hsel : selectLots pg [l.text] db.sequence with ⟨_ | rows, seq⟩
  · exact ⟨h.staging, h.ids⟩
  · simp only
    split_ifs
    · exact ⟨rfl, selected_nodup hsel⟩
    · exact ⟨h.staging, h.ids⟩

theorem sequence_le (db : Db Lot Unit) (loads : List LotsLoad) (h : Inv db) :
    db.sequence ≤ (run (transaction pg) db loads).sequence := by
  have hstep : ∀ db l, Inv db → db.sequence ≤ (transaction pg db l).sequence := by
    intro db l hi
    rw [transaction_sequence hi.staging]
    exact (idsTaken_bounds db l.text).1
  have hrefl : ∀ db : Db Lot Unit, db.sequence ≤ db.sequence := fun db => le_refl _
  have htrans : ∀ a b c : Db Lot Unit, a.sequence ≤ b.sequence → b.sequence ≤ c.sequence → a.sequence ≤ c.sequence :=
    fun a b c => le_trans
  exact run_mono transaction_inv hrefl htrans hstep db loads h

/-- what a successful load leaves: one lot for each element, in order, with the id that the element took -/
def HoldsElements (pg : Pg) (db : Db Lot Unit) (text : String) (lots : List Lot) : Prop :=
  (∃ js, pg.elements text = some js ∧ List.Forall₂ (fun values lot => SaysLot pg values lot.record) js lots) ∧
    (lots.map Lot.lotId).Nodup ∧ lots.map Lot.lotId = idsTaken pg db text

theorem holds_elements {db db' : Db Lot Unit} {text : String} (hs : db.staging = [])
    (h : load (loadLots pg) db [text] = .ok db') : HoldsElements pg db text db'.target := by
  rw [load_single hs] at h
  rcases hsel : selectLots pg [text] db.sequence with ⟨_ | rows, seq⟩
  · rw [hsel] at h; cases h
  · rw [hsel] at h
    cases h
    have hnodup := selected_nodup hsel
    rw [selectLots_single] at hsel
    cases hjs : pg.elements text with
    | none => rw [hjs] at hsel; cases hsel
    | some js =>
      rw [hjs] at hsel
      have hrecords := mapM_eq_some.1 (lotRows_records pg js db.sequence seq rows hsel)
      simp only [List.forall₂_map_right_iff, lotRecord_iff] at hrecords
      refine ⟨⟨js, hjs, hrecords⟩, hnodup, ?_⟩
      rw [idsTaken, hjs]
      exact lotRows_taken hsel

/-- what holds of the ids in one state of a run -/
structure NoClash (pg : Pg) (db : Db Lot Unit) : Prop where
  ids : (db.target.map Lot.lotId).Nodup
  pkey : ∀ text, ¬ Clashes (loadLots pg) db [text]
  loaded : ∀ text db', load (loadLots pg) db [text] = .ok db' → HoldsElements pg db text db'.target

/-- every id the load `l` takes is below every id that any later load takes -/
theorem later_ids {db : Db Lot Unit} (hi : Inv db) (l : LotsLoad) (mid : List LotsLoad) (text : String) (i j : ℤ)
    (h1 : i ∈ idsTaken pg db l.text) (h2 : j ∈ idsTaken pg (run (transaction pg) (transaction pg db l) mid) text) :
    i < j := by
  have hseq : (transaction pg db l).sequence ≤ (run (transaction pg) (transaction pg db l) mid).sequence :=
    sequence_le _ mid (transaction_inv db l hi)
  rw [transaction_sequence hi.staging] at hseq
  have hlow := ((idsTaken_bounds db l.text).2 i h1).2
  have hhigh := ((idsTaken_bounds _ text).2 j h2).1
  omega

end

/-- **Lot ids never clash.** Over any seed lots with different ids, wherever the sequence starts, along every run of
single-row loads, committed, aborted or failed: no load fails on lots_pkey; a successful load leaves one lot for each
element, with pairwise different ids; and every id that a load takes is greater than every id taken by an earlier load
of the run. -/
theorem lot_ids_never_clash (pg : Pg) (seeds : List Lot) (bak : Option (List Lot)) (sequence : ℤ)
    (hseeds : (seeds.map Lot.lotId).Nodup) :
    (∀ loads, NoClash pg (run (transaction pg) (seeded seeds bak sequence) loads)) ∧
      ∀ pre l mid text, ∀ i ∈ idsTaken pg (run (transaction pg) (seeded seeds bak sequence) pre) l.text,
        ∀ j ∈ idsTaken pg (run (transaction pg) (seeded seeds bak sequence) (pre ++ l :: mid)) text, i < j := by
  have hinv : ∀ loads, Inv (run (transaction pg) (seeded seeds bak sequence) loads) := fun loads =>
    run_inv transaction_inv (seeded seeds bak sequence) loads ⟨rfl, hseeds⟩
  constructor
  · intro loads
    have hi := hinv loads
    exact ⟨hi.ids, no_clash hi.staging, fun text db' => holds_elements hi.staging⟩
  · intro pre l mid text i h1 j h2
    rw [run_append, run_cons] at h2
    exact later_ids (hinv pre) l mid text i j h1 h2

/-- two seed lots, whose ids the first loads take anew -/
def seedLots : List Lot := [⟨1, some "S1", none, none, none⟩, ⟨2, some "S2", none, none, none⟩]

theorem lot_ids_never_clash_sample : (seedLots.map Lot.lotId).Nodup ∧
    NoClash WholePayload.samplePg (run (transaction WholePayload.samplePg) (seeded seedLots none 0)
      [⟨"[\x7b\"lotNumber\": \"A1\"\x7d]", false⟩, ⟨"[\x7b\"lotNumber\": \"B2\"\x7d]", true⟩]) :=
  ⟨by decide, (lot_ids_never_clash WholePayload.samplePg seedLots none 0 (by decide)).1 _⟩

end IconSetup.LotIds
