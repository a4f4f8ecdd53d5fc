/-
How many files the trigger file_upload_check lets in when sessions race: every session counts the committed files and
its own, and misses those of the others.

- `step_admission`: for each transaction id, a step of the table is one of an admission check with limit two.
- `race_bound_exact`: while at most `c` sessions at a time have rows of the id that are not committed, at most `2 * c`
  files are ever committed under it, whatever the number of sessions and however they interleave; and `2 * c` are
  possible, for every `c` for which there are enough "Id"s. A row that is past the trigger and not inserted yet counts as
  one that is not committed.
-/
import Mathlib.Tactic
import IconSetup.Core.Run
import IconSetup.Core.Text
import IconSetup.Core.Admission
import IconSetup.Submit.Attachments

namespace IconSetup.RaceBound

open IconSetup.Run IconSetup.Attachments

/-! ## An admission check -/

/-- the sessions of the rows of `t` that have passed the trigger and are not committed, one entry for each row -/
def openRows (s : St) (t : String) : List ℕ :=
  (s.checked.filter fun x => x.2.transactionId = some t).map Prod.fst ++
    (s.inserted.filter fun x => x.2.transactionId = t).map Prod.fst

def admission (s : St) (t : String) : Admission.St ℕ := ⟨files s t, openRows s t⟩

section
variable {s : St} {i : ℕ} {t : String}

theorem pending_none (h : pending s i = none) : ∀ x ∈ s.checked, x.1 ≠ i := by
  intro x hx he
  have hnone := Option.map_eq_none_iff.1 h
  exact List.find?_eq_none.1 hnone x hx (decide_eq_true he)

theorem openRows_abort (s : St) (i : ℕ) (t : String) : openRows (abort s i) t = (openRows s t).filter (· ≠ i) := by
  simp only [openRows, abort, List.filter_append, List.filter_map, List.filter_filter]
  congr 2
  · exact List.filter_congr fun x _ => Bool.and_comm _ _
  · exact List.filter_congr fun x _ => Bool.and_comm _ _

/-- what a session without a pending row has open of `t` are its inserted rows -/
theorem count_openRows (h : pending s i = none) :
    (openRows s t).count i = (own s i).countP fun r => decide (r.transactionId = t) := by
  have hchecked : i ∉ (s.checked.filter fun x => x.2.transactionId = some t).map Prod.fst := by
    intro hmem
    obtain ⟨x, hx, he⟩ := List.mem_map.1 hmem
    exact pending_none h x (List.mem_filter.1 hx).1 he
  rw [openRows, List.count_append, List.count_eq_zero_of_not_mem hchecked, Nat.zero_add]
  simp only [List.count, own, List.countP_map, List.countP_filter]
  refine List.countP_congr fun x _ => ?_
  simp [and_comm]

/-- the trigger counts the committed rows and those -/
theorem counter_visible {new : New} (h : pending s i = none) (ht : new.transactionId = some t) :
    counter (visible s i) new = files s t + (openRows s t).count i := by
  rw [count_openRows h, counter, visible, List.countP_append, files]
  simp only [ht, Option.some.injEq, eq_comm]

theorem step_abort (n : ℕ) (s : St) (i : ℕ) (t : String) :
    Admission.Step n (admission s t) (admission (abort s i) t) := by
  have h := Admission.Step.drop (n := n) (admission s t) i
  have he : admission (abort s i) t = { admission s t with opened := (admission s t).opened.filter (· ≠ i) } :=
    congrArg (Admission.St.mk (files s t)) (openRows_abort s i t)
  rw [he]
  exact h

theorem step_same (n : ℕ) (s : St) (t : String) : Admission.Step n (admission s t) (admission s t) :=
  .reorder (admission s t) _ (List.Perm.refl _)

/-- an entry with a key of its own, and the entries with other keys -/
theorem perm_key {α : Type} {l : List (ℕ × α)} (h : (l.map Prod.fst).Nodup) {x : ℕ × α} (hx : x ∈ l) :
    l.Perm (x :: l.filter (·.1 ≠ x.1)) := by
  induction l with
  | nil => cases hx
  | cons y l ih =>
    rw [List.map_cons, List.nodup_cons] at h
    by_cases hy : y.1 = x.1
    · have hout : ∀ z ∈ l, z.1 ≠ x.1 := fun z hz he => h.1 (hy ▸ he ▸ List.mem_map_of_mem hz)
      have hyx : x = y := (List.mem_cons.1 hx).resolve_right fun hm => hout x hm rfl
      rw [List.filter_cons_of_neg (by simpa using hy), List.filter_eq_self.2 fun z hz => by simpa using hout z hz, hyx]
    · have hm : x ∈ l := (List.mem_cons.1 hx).resolve_left fun he => hy (congrArg Prod.fst he.symm)
      rw [List.filter_cons_of_pos (by simpa using hy)]
      exact ((ih h.2 hm).cons y).trans (List.Perm.swap x y _)

/-- a session has at most one row that has passed the trigger and is not inserted -/
def OnePending (s : St) : Prop := (s.checked.map Prod.fst).Nodup

theorem step_onePending (s : St) (o : Op) (h : OnePending s) : OnePending (step s o) := by
  have habort : ∀ i, OnePending (abort s i) := fun i => h.sublist (List.filter_sublist.map _)
  cases o with
  | check i new =>
    simp only [step]
    split
    · exact h
    · exact habort i
    · rename_i new' hp hco
      split
      · exact habort i
      · refine List.nodup_cons.2 ⟨fun hmem => ?_, h⟩
        obtain ⟨x, hx, he⟩ := List.mem_map.1 hmem
        exact pending_none hp x hx he
  | insert i =>
    simp only [step]
    split
    · exact h
    · split
      · exact habort i
      · split_ifs
        · exact habort i
        · exact h
        · exact habort i
  | commit i =>
    simp only [step]
    split <;> exact h
  | rollback i => exact habort i

/-- the row that a session inserts leaves the rows that have passed the trigger -/
theorem openRows_insert (h : OnePending s) {new : New} {r : Row} (hp : pending s i = some new)
    (hr : new.row = some r) : (openRows s t).Perm
      (openRows { s with inserted := (i, r) :: s.inserted, checked := s.checked.filter (·.1 ≠ i) } t) := by
  obtain ⟨x, hx, rfl⟩ := Option.map_eq_some_iff.1 hp
  have hxi : x.1 = i := by simpa using List.find?_some hx
  have hperm := ((perm_key h (List.mem_of_find?_eq_some hx)).filter
    fun x => decide (x.2.transactionId = some t)).map Prod.fst
  rw [hxi] at hperm
  have ht := row_transactionId hr
  simp only [openRows]
  refine (hperm.append_right _).trans ?_
  by_cases hrt : r.transactionId = t
  · rw [List.filter_cons_of_pos (by simpa [ht] using hrt), List.filter_cons_of_pos (by simpa using hrt), List.map_cons,
      List.map_cons, hxi, List.cons_append]
    exact List.perm_middle.symm
  · rw [List.filter_cons_of_neg (by simpa [ht] using hrt), List.filter_cons_of_neg (by simpa using hrt)]

/-- a row that the trigger lets through is one more open row of its id -/
theorem check_admission {new : New} (hp : pending s i = none) (hlt : counter (visible s i) new < 2) (t : String) :
    Admission.Step 2 (admission s t) (admission { s with checked := (i, new) :: s.checked } t) := by
  by_cases ht : new.transactionId = some t
  · rw [counter_visible hp ht] at hlt
    have henter := Admission.Step.enter (n := 2) (admission s t) i hlt
    have hopen : openRows { s with checked := (i, new) :: s.checked } t = i :: openRows s t := by
      rw [openRows, List.filter_cons_of_pos (by simpa using ht)]
      rfl
    rw [admission, admission, hopen]
    exact henter
  · have hopen : openRows { s with checked := (i, new) :: s.checked } t = openRows s t := by
      rw [openRows, List.filter_cons_of_neg (by simpa using ht)]
      rfl
    rw [admission, admission, hopen]
    exact step_same 2 s t

/-- a commit settles what the session has open -/
theorem commit_admission (hp : pending s i = none) (t : String) : Admission.Step 2 (admission s t)
    (admission { s with committed := s.committed ++ own s i, inserted := s.inserted.filter (·.1 ≠ i) } t) := by
  have hsettle := Admission.Step.settle (n := 2) (admission s t) i
  have hfiles : files { s with committed := s.committed ++ own s i, inserted := s.inserted.filter (·.1 ≠ i) } t =
      files s t + (openRows s t).count i := by
    rw [count_openRows hp, files, List.countP_append, files]
  have hopen : openRows { s with committed := s.committed ++ own s i, inserted := s.inserted.filter (·.1 ≠ i) } t =
      (openRows s t).filter (· ≠ i) := by
    rw [← openRows_abort]
    simp only [openRows, abort, List.filter_eq_self.2 fun x hx => decide_eq_true (pending_none hp x hx)]
  rw [admission, admission, hfiles, hopen]
  exact hsettle

/-- **For each transaction id, a step of the table is a step of an admission check with limit two.** -/
theorem step_admission (h : OnePending s) (o : Op) (t : String) :
    Admission.Step 2 (admission s t) (admission (step s o) t) := by
  cases o with
  | check i new =>
    simp only [step]
    split
    · exact step_same 2 s t
    · exact step_abort 2 s i t
    · rename_i new' hp hco
      split
      · exact step_abort 2 s i t
      · rename_i new'' hok
        obtain ⟨rfl, hlt⟩ := fileUploadCheck_ok hok
        exact check_admission hp hlt t
  | insert i =>
    simp only [step]
    split
    · exact step_same 2 s t
    · rename_i new hp
      split
      · exact step_abort 2 s i t
      · rename_i r hr
        split_ifs
        · exact step_abort 2 s i t
        · exact step_same 2 s t
        · exact .reorder (admission s t) _ (openRows_insert h hp hr)
  | commit i =>
    simp only [step]
    split
    · exact step_same 2 s t
    · rename_i hp
      exact commit_admission hp t
  | rollback i => exact step_abort 2 s i t

end

/-! ## The bound -/

/-- after the step, at most `c` sessions have rows of `t` that are not committed -/
def AtMost (c : ℕ) (t : String) (s : St) (o : Op) : Prop := (Admission.parties (openRows (step s o) t)).card ≤ c

theorem files_le {c : ℕ} {t : String} {ops : List Op} (h : Along step (AtMost c t) empty ops) :
    files (run step empty ops) t ≤ 2 * c := by
  have hstep : ∀ s o, OnePending s ∧ Admission.Inv 2 c (admission s t) → AtMost c t s o →
      OnePending (step s o) ∧ Admission.Inv 2 c (admission (step s o) t) := by
    intro s o ⟨hone, hinv⟩ hfew
    exact ⟨step_onePending s o hone, Admission.step_inv hinv (step_admission hone o t) hfew⟩
  have hrun := run_inv_along hstep empty ops ⟨List.nodup_nil, Admission.inv_empty 2 c⟩ h
  exact hrun.2.settled_le

/-! ## Few sessions -/

def session : Op → ℕ
  | .check i _ => i
  | .insert i => i
  | .commit i => i
  | .rollback i => i

/-- rows that are not committed are of the sessions below `c` -/
structure Below (c : ℕ) (s : St) : Prop where
  inserted : ∀ x ∈ s.inserted, x.1 < c
  checked : ∀ x ∈ s.checked, x.1 < c

theorem below_abort {c : ℕ} {s : St} (h : Below c s) (i : ℕ) : Below c (abort s i) :=
  ⟨fun x hx => h.inserted x (List.mem_filter.1 hx).1, fun x hx => h.checked x (List.mem_filter.1 hx).1⟩

theorem step_below {c : ℕ} {s : St} {o : Op} (h : Below c s) (ho : session o < c) : Below c (step s o) := by
  cases o with
  | check i new =>
    simp only [step]
    split
    · exact h
    · exact below_abort h i
    · split
      · exact below_abort h i
      · exact ⟨h.inserted, List.forall_mem_cons.2 ⟨ho, h.checked⟩⟩
  | insert i =>
    simp only [step]
    split
    · exact h
    · split
      · exact below_abort h i
      · split_ifs
        · exact below_abort h i
        · exact h
        · exact ⟨List.forall_mem_cons.2 ⟨ho, h.inserted⟩, (below_abort h i).checked⟩
  | commit i =>
    simp only [step]
    split
    · exact h
    · exact ⟨(below_abort h i).inserted, h.checked⟩
  | rollback i => exact below_abort h i

theorem Below.card_parties {c : ℕ} {s : St} (h : Below c s) (t : String) :
    (Admission.parties (openRows s t)).card ≤ c := by
  have hsub : Admission.parties (openRows s t) ⊆ Finset.range c := by
    intro i hi
    rw [Admission.parties, List.mem_toFinset, openRows, List.mem_append] at hi
    rw [Finset.mem_range]
    rcases hi with hi | hi
    · obtain ⟨x, hx, rfl⟩ := List.mem_map.1 hi
      exact h.checked x (List.mem_filter.1 hx).1
    · obtain ⟨x, hx, rfl⟩ := List.mem_map.1 hi
      exact h.inserted x (List.mem_filter.1 hx).1
  exact (Finset.card_le_card hsub).trans_eq (Finset.card_range c)

/-- sessions below `c` are at most `c` -/
theorem along_below {c : ℕ} {s : St} (t : String) {ops : List Op} (h : Below c s) (hops : ∀ o ∈ ops, session o < c) :
    Along step (AtMost c t) s ops := by
  induction ops generalizing s with
  | nil => trivial
  | cons o ops ih =>
    have hstep := step_below h (hops o List.mem_cons_self)
    exact ⟨hstep.card_parties t, ih hstep fun o' ho' => hops o' (List.mem_cons_of_mem o ho')⟩

/-! ## A race of `c` sessions -/

def file (t : String) (id : ℕ) : New :=
  ⟨some (BitVec.ofNat 128 id), some t, some "scan.pdf", some "application/pdf", none, some 0⟩

def fileRow (t : String) (id : ℕ) : Row := ⟨BitVec.ofNat 128 id, t, "scan.pdf", "application/pdf", none, 0⟩

/-- session `i` uploads two files -/
def uploads (t : String) (i : ℕ) : List Op :=
  [.check i (file t (2 * i)), .insert i, .check i (file t (2 * i + 1)), .insert i]

/-- the sessions upload, and commit only then -/
def race (t : String) (c : ℕ) : List Op := (List.range c).flatMap (uploads t) ++ (List.range c).map Op.commit

/-- the rows of the first `c` sessions -/
def raceRows (t : String) : ℕ → List (ℕ × Row)
  | 0 => []
  | c + 1 => (c, fileRow t (2 * c + 1)) :: (c, fileRow t (2 * c)) :: raceRows t c

section
variable {t : String}

theorem file_coerce (ht : t.toList.length ≤ 50) (id : ℕ) : (file t id).coerce = some (file t id) := by
  have h1 : Text.castVarchar 50 (some t) = some (some t) := by
    rw [Text.castVarchar, Fallible.strict, Text.varchar_of_le ht, Option.map_some]
  have h2 : Text.castVarchar 260 (some "scan.pdf") = some (some "scan.pdf") := by decide +kernel
  have h3 : Text.castVarchar 130 (some "application/pdf") = some (some "application/pdf") := by decide +kernel
  simp only [New.coerce, file, h1, h2, h3]

theorem mem_raceRows {c : ℕ} {x : ℕ × Row} (h : x ∈ raceRows t c) :
    x.1 < c ∧ ∃ id, id < 2 * c ∧ x.2 = fileRow t id := by
  induction c with
  | zero => cases h
  | succ c ih =>
    rcases List.mem_cons.1 h with rfl | h
    · exact ⟨Nat.lt_succ_self c, 2 * c + 1, by omega, rfl⟩
    · rcases List.mem_cons.1 h with rfl | h
      · exact ⟨Nat.lt_succ_self c, 2 * c, by omega, rfl⟩
      · obtain ⟨hlt, id, hid, he⟩ := ih h
        exact ⟨by omega, id, by omega, he⟩

theorem ofNat_ne {a b : ℕ} (hab : a < b) (hb : b < 2 ^ 128) : BitVec.ofNat 128 b ≠ BitVec.ofNat 128 a := by
  intro he
  have := congrArg BitVec.toNat he
  rw [BitVec.toNat_ofNat, BitVec.toNat_ofNat, Nat.mod_eq_of_lt hb, Nat.mod_eq_of_lt (hab.trans hb)] at this
  omega

/-- one upload of a session that sees fewer than two files -/
theorem upload_step (ht : t.toList.length ≤ 50) {inserted : List (ℕ × Row)} (i id : ℕ)
    (hseen : (own ⟨[], inserted, []⟩ i).length < 2) (hid : BitVec.ofNat 128 id ∉ inserted.map (·.2.id)) :
    run step ⟨[], inserted, []⟩ [.check i (file t id), .insert i] = ⟨[], (i, fileRow t id) :: inserted, []⟩ := by
  have hcounter : counter (visible ⟨[], inserted, []⟩ i) (file t id) < 2 :=
    lt_of_le_of_lt List.countP_le_length hseen
  have hcheck : step ⟨[], inserted, []⟩ (.check i (file t id)) = ⟨[], inserted, [(i, file t id)]⟩ := by
    have hlim : ¬ 2 ^ 31 ≤ counter (visible ⟨[], inserted, []⟩ i) (file t id) := by omega
    have hpend : pending ⟨[], inserted, []⟩ i = none := rfl
    simp only [step, hpend, file_coerce ht, fileUploadCheck, if_neg hlim, if_neg (Nat.not_le.2 hcounter)]
  have hown : BitVec.ofNat 128 id ∉ (visible ⟨[], inserted, [(i, file t id)]⟩ i).map Row.id := by
    intro hmem
    obtain ⟨r, hr, he⟩ := List.mem_map.1 hmem
    obtain ⟨x, hx, rfl⟩ := List.mem_map.1 (show r ∈ own _ i from hr)
    exact hid (List.mem_map.2 ⟨x, (List.mem_filter.1 hx).1, he⟩)
  have hpend : pending ⟨[], inserted, [(i, file t id)]⟩ i = some (file t id) := by simp [pending]
  have hrow : (file t id).row = some (fileRow t id) := rfl
  have hrid : (fileRow t id).id = BitVec.ofNat 128 id := rfl
  rw [run_cons, run_cons, run_nil, hcheck]
  simp only [step, hpend, hrow]
  rw [hrid, if_neg hown, if_neg hid, List.filter_cons_of_neg (by simp), List.filter_nil]

/-- a session uploads two files while those of the sessions before it are not committed -/
theorem uploads_run (ht : t.toList.length ≤ 50) {c : ℕ} (hc : 2 * c + 1 < 2 ^ 128) :
    run step ⟨[], raceRows t c, []⟩ (uploads t c) = ⟨[], raceRows t (c + 1), []⟩ := by
  have hnone : own ⟨[], raceRows t c, []⟩ c = [] := by
    rw [own, List.filter_eq_nil_iff.2 fun x hx => ?_]
    · rfl
    · have := (mem_raceRows hx).1
      simp only [decide_eq_true_eq]
      omega
  have hone : (own ⟨[], (c, fileRow t (2 * c)) :: raceRows t c, []⟩ c) = [fileRow t (2 * c)] := by
    rw [own] at hnone ⊢
    dsimp only at hnone ⊢
    rw [List.filter_cons_of_pos (by simp), List.map_cons, hnone]
  have hnew : ∀ id, 2 * c ≤ id → id < 2 ^ 128 → BitVec.ofNat 128 id ∉ (raceRows t c).map (·.2.id) := by
    intro id hle hlt hmem
    obtain ⟨x, hx, he⟩ := List.mem_map.1 hmem
    obtain ⟨-, id', hid', hrow⟩ := mem_raceRows hx
    rw [hrow] at he
    exact ofNat_ne (by omega) hlt he.symm
  have hnew2 : BitVec.ofNat 128 (2 * c + 1) ∉ ((c, fileRow t (2 * c)) :: raceRows t c).map (·.2.id) := by
    rw [List.map_cons, List.mem_cons, not_or]
    exact ⟨ofNat_ne (by omega) hc, hnew _ (by omega) hc⟩
  have h1 := upload_step ht c (2 * c) (by rw [hnone]; exact Nat.two_pos) (hnew _ le_rfl (by omega))
  have h2 := upload_step ht c (2 * c + 1) (by rw [hone]; exact Nat.lt_succ_self 1) hnew2
  calc run step ⟨[], raceRows t c, []⟩ (uploads t c)
      = run step (run step ⟨[], raceRows t c, []⟩ [.check c (file t (2 * c)), .insert c])
          [.check c (file t (2 * c + 1)), .insert c] := rfl
    _ = ⟨[], raceRows t (c + 1), []⟩ := by rw [h1, h2]; rfl

theorem all_uploads (ht : t.toList.length ≤ 50) {c : ℕ} (hc : 2 * c ≤ 2 ^ 128) :
    run step empty ((List.range c).flatMap (uploads t)) = ⟨[], raceRows t c, []⟩ := by
  induction c with
  | zero => rfl
  | succ c ih =>
    rw [List.range_succ, List.flatMap_append, run_append, ih (by omega), List.flatMap_singleton,
      uploads_run ht (by omega)]

/-- every session has two rows -/
theorem count_raceRows (c i : ℕ) : ((raceRows t c).filter (·.1 = i)).length = if i < c then 2 else 0 := by
  induction c with
  | zero => rfl
  | succ c ih =>
    by_cases hi : c = i
    · subst hi
      rw [if_neg (Nat.lt_irrefl c)] at ih
      rw [if_pos (Nat.lt_succ_self c), raceRows, List.filter_cons_of_pos (by simp), List.filter_cons_of_pos (by simp),
        List.length_cons, List.length_cons, ih]
    · rw [raceRows, List.filter_cons_of_neg (by simpa using hi), List.filter_cons_of_neg (by simpa using hi), ih]
      exact if_congr (by omega) rfl rfl

/-- the state when the first `j` sessions have committed -/
theorem commits_run {c j : ℕ} (hj : j ≤ c) :
    ∃ committed, run step ⟨[], raceRows t c, []⟩ ((List.range j).map Op.commit) =
        ⟨committed, (raceRows t c).filter (j ≤ ·.1), []⟩ ∧
      files ⟨committed, (raceRows t c).filter (j ≤ ·.1), []⟩ t = 2 * j := by
  induction j with
  | zero =>
    refine ⟨[], ?_, rfl⟩
    rw [List.filter_eq_self.2 fun x _ => by simp]
    rfl
  | succ j ih =>
    obtain ⟨committed, hrun, hfiles⟩ := ih (by omega)
    have hown : own ⟨committed, (raceRows t c).filter (j ≤ ·.1), []⟩ j =
        ((raceRows t c).filter (·.1 = j)).map Prod.snd := by
      rw [own, List.filter_filter]
      refine congrArg (List.map Prod.snd) (List.filter_congr fun x _ => ?_)
      by_cases hx : x.1 = j <;> simp [hx]
    have hrest : ((raceRows t c).filter (j ≤ ·.1)).filter (·.1 ≠ j) = (raceRows t c).filter (j + 1 ≤ ·.1) := by
      rw [List.filter_filter]
      refine List.filter_congr fun x _ => ?_
      rw [← Bool.decide_and, decide_eq_decide]
      omega
    have hcount : (own ⟨committed, (raceRows t c).filter (j ≤ ·.1), []⟩ j).countP (·.transactionId = t) = 2 := by
      have hall : ∀ r ∈ ((raceRows t c).filter (·.1 = j)).map Prod.snd, decide (r.transactionId = t) = true := by
        intro r hr
        obtain ⟨x, hx, rfl⟩ := List.mem_map.1 hr
        obtain ⟨-, id, -, he⟩ := mem_raceRows (List.mem_filter.1 hx).1
        rw [he]
        exact decide_eq_true rfl
      rw [hown, List.countP_eq_length.2 hall, List.length_map, count_raceRows, if_pos (by omega)]
    refine ⟨committed ++ own ⟨committed, (raceRows t c).filter (j ≤ ·.1), []⟩ j, ?_, ?_⟩
    · rw [List.range_succ, List.map_append, run_append, hrun, List.map_singleton, run_cons, run_nil, step]
      rw [← hrest]
      rfl
    · rw [files] at hfiles ⊢
      rw [List.countP_append, hfiles, hcount]
      omega

end

/-- **The trigger's limit under races.** While at most `c` sessions at a time have files of the id `t` that are past the
trigger and not committed, at most `2 * c` files are ever committed under it, in every run. And for every `c` there is such a run that
commits `2 * c`, when `t` fits its column and there are as many "Id"s. -/
theorem race_bound_exact (c : ℕ) (t : String) :
    (∀ ops, Along step (AtMost c t) empty ops → files (run step empty ops) t ≤ 2 * c) ∧
    (2 * c ≤ 2 ^ 128 → t.toList.length ≤ 50 →
      Along step (AtMost c t) empty (race t c) ∧ files (run step empty (race t c)) t = 2 * c) := by
  have hbelow : Below c empty := ⟨fun x hx => (by cases hx), fun x hx => (by cases hx)⟩
  refine ⟨fun ops h => files_le h, fun hc ht => ⟨along_below t hbelow ?_, ?_⟩⟩
  · intro o ho
    rcases List.mem_append.1 ho with ho | ho
    · obtain ⟨i, hi, ho⟩ := List.mem_flatMap.1 ho
      have hi := List.mem_range.1 hi
      simp only [uploads, List.mem_cons, List.not_mem_nil, or_false] at ho
      rcases ho with rfl | rfl | rfl | rfl <;> exact hi
    · obtain ⟨i, hi, rfl⟩ := List.mem_map.1 ho
      exact List.mem_range.1 hi
  · obtain ⟨committed, hrun, hfiles⟩ := commits_run (t := t) (le_refl c)
    rw [race, run_append, all_uploads ht hc, hrun, hfiles]

theorem race_bound_exact_three : files (run step empty (race "t" 3)) "t" = 6 :=
  ((race_bound_exact 3 "t").2 (by decide) (by decide)).2

end IconSetup.RaceBound
