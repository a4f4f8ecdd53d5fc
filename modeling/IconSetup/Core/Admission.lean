/-
A limit that every party checks for itself. An entry is settled, and then every party sees it, or open, and then only the
party that made it does. A party makes an entry when it sees fewer than `n`; later it settles its open entries all at
once, or drops them.

- `Step`: what a step does to the number of settled entries and to the open ones, each with its party.
- `Inv`: of the parties with open entries, not all have more of them than the settled entries leave room for (`late`).
- `length_opened`: the open entries, counted by how many parties have more than `k` of them.
- `step_inv`, `settled_le`: while at most `c` parties have open entries at a time, at most `n * c` entries are settled.
  With one party at a time that is the limit.
-/
import Mathlib.Tactic

namespace IconSetup.Admission

structure St (P : Type) where
  settled : ℕ
  opened : List P
deriving DecidableEq, Repr

variable {P : Type} [DecidableEq P]

inductive Step (n : ℕ) : St P → St P → Prop where
  | enter (s : St P) (i : P) (h : s.settled + s.opened.count i < n) : Step n s { s with opened := i :: s.opened }
  | settle (s : St P) (i : P) : Step n s ⟨s.settled + s.opened.count i, s.opened.filter (· ≠ i)⟩
  | drop (s : St P) (i : P) : Step n s { s with opened := s.opened.filter (· ≠ i) }
  | reorder (s : St P) (opened : List P) (h : s.opened.Perm opened) : Step n s { s with opened := opened }

def parties (opened : List P) : Finset P := opened.toFinset

/-- the parties with more than `k` open entries -/
def above (opened : List P) (k : ℕ) : Finset P := (parties opened).filter fun i => k < opened.count i

/-- what holds while at most `c` parties have open entries -/
structure Inv (n c : ℕ) (s : St P) : Prop where
  few : (parties s.opened).card ≤ c
  each : ∀ i, s.opened.count i ≤ n
  late : ∀ k, k < n → n ≤ s.settled + k → (above s.opened k).card + 1 ≤ c
  total : s.settled + s.opened.length ≤ n * c

theorem inv_empty (n c : ℕ) : Inv n c (⟨0, []⟩ : St P) where
  few := Nat.zero_le c
  each i := Nat.zero_le n
  late k hk hn := absurd hn (by dsimp only; omega)
  total := Nat.zero_le _

/-! ## Counting -/

theorem mem_above {opened : List P} {k : ℕ} {i : P} : i ∈ above opened k ↔ k < opened.count i := by
  rw [above, Finset.mem_filter, parties, List.mem_toFinset]
  exact and_iff_right_of_imp fun h => List.count_pos_iff.1 (by omega)

theorem above_mono {a b : List P} {k : ℕ} (h : ∀ i, k < a.count i → k < b.count i) :
    (above a k).card ≤ (above b k).card :=
  Finset.card_le_card fun i hi => mem_above.2 (h i (mem_above.1 hi))

/-- each open entry is counted once, at its place among those of its party -/
theorem length_opened {opened : List P} {n : ℕ} (h : ∀ i, opened.count i ≤ n) :
    opened.length = ∑ k ∈ Finset.range n, (above opened k).card := by
  have hcount : ∀ i ∈ parties opened, opened.count i = ∑ k ∈ Finset.range n, if k < opened.count i then 1 else 0 := by
    intro i _
    have hfilter : (Finset.range n).filter (· < opened.count i) = Finset.range (opened.count i) := by
      ext k
      have := h i
      simp only [Finset.mem_filter, Finset.mem_range]
      omega
    rw [← Finset.card_filter, hfilter, Finset.card_range]
  calc opened.length = ∑ i ∈ parties opened, opened.count i := (List.sum_toFinset_count_eq_length opened).symm
    _ = ∑ i ∈ parties opened, ∑ k ∈ Finset.range n, (if k < opened.count i then 1 else 0) := Finset.sum_congr rfl hcount
    _ = ∑ k ∈ Finset.range n, ∑ i ∈ parties opened, (if k < opened.count i then 1 else 0) := Finset.sum_comm
    _ = ∑ k ∈ Finset.range n, (above opened k).card :=
        Finset.sum_congr rfl fun k _ => (Finset.card_filter _ _).symm

/-- as long as the limit is not passed, the places above what the settled entries leave are taken by `c - 1` parties at
most, and the others by `c` -/
theorem total_le {n c : ℕ} {s : St P} (hn : s.settled ≤ n) (few : (parties s.opened).card ≤ c)
    (each : ∀ i, s.opened.count i ≤ n) (late : ∀ k, k < n → n ≤ s.settled + k → (above s.opened k).card + 1 ≤ c) :
    s.settled + s.opened.length ≤ n * c := by
  have hsettled : s.settled = ∑ k ∈ Finset.range n, if n ≤ s.settled + k then 1 else 0 := by
    have hfilter : (Finset.range n).filter (fun k => n ≤ s.settled + k) = Finset.Ico (n - s.settled) n := by
      ext k
      simp only [Finset.mem_filter, Finset.mem_range, Finset.mem_Ico]
      omega
    rw [← Finset.card_filter, hfilter, Nat.card_Ico]
    omega
  have hplace : ∀ k ∈ Finset.range n, (if n ≤ s.settled + k then 1 else 0) + (above s.opened k).card ≤ c := by
    intro k hk
    split_ifs with hlate
    · have := late k (Finset.mem_range.1 hk) hlate
      omega
    · have := Finset.card_le_card (Finset.filter_subset (fun i => k < s.opened.count i) (parties s.opened))
      rw [← above] at this
      omega
  calc s.settled + s.opened.length
      = ∑ k ∈ Finset.range n, ((if n ≤ s.settled + k then 1 else 0) + (above s.opened k).card) := by
        rw [Finset.sum_add_distrib, ← hsettled, ← length_opened each]
    _ ≤ ∑ k ∈ Finset.range n, c := Finset.sum_le_sum hplace
    _ = n * c := by rw [Finset.sum_const, Finset.card_range, smul_eq_mul]

/-! ## One step -/

theorem count_filter_ne (opened : List P) (i j : P) : (opened.filter (· ≠ i)).count j ≤ opened.count j :=
  List.filter_sublist.count_le j

theorem above_filter_ne (opened : List P) (i : P) (k : ℕ) :
    (above (opened.filter (· ≠ i)) k).card ≤ (above opened k).card :=
  above_mono fun j hj => lt_of_lt_of_le hj (count_filter_ne opened i j)

theorem length_filter_ne (opened : List P) (i : P) :
    opened.count i + (opened.filter (· ≠ i)).length = opened.length := by
  induction opened with
  | nil => rfl
  | cons j opened ih =>
    by_cases hj : j = i
    · subst hj
      rw [List.count_cons_self, List.filter_cons_of_neg (by simp), List.length_cons]
      omega
    · rw [List.count_cons_of_ne hj, List.filter_cons_of_pos (by simpa using hj), List.length_cons, List.length_cons]
      omega

theorem parties_filter_ne (opened : List P) (i : P) : parties (opened.filter (· ≠ i)) = (parties opened).erase i := by
  ext j
  simp [parties, and_comm]

/-- a new entry of a party that counts fewer than `n` is not one of its late ones -/
theorem count_cons_late {n : ℕ} {s : St P} {i : P} (hi : s.settled + s.opened.count i < n)
    (each : ∀ j, s.opened.count j ≤ n) (j : P) : (i :: s.opened).count j ≤ n ∧
      ∀ k, n ≤ s.settled + k → k < (i :: s.opened).count j → k < s.opened.count j := by
  by_cases hj : i = j
  · subst hj
    rw [List.count_cons_self]
    exact ⟨by omega, fun k hk hlt => by omega⟩
  · rw [List.count_cons_of_ne hj]
    exact ⟨each j, fun k _ hlt => hlt⟩

/-- when a party's entries are settled, one party fewer has open entries -/
theorem settle_late {n c : ℕ} {s : St P} (h : Inv n c s) (i : P) {k : ℕ} (hk : k < n)
    (hn : n ≤ s.settled + s.opened.count i + k) : (above (s.opened.filter (· ≠ i)) k).card + 1 ≤ c := by
  by_cases hmem : i ∈ s.opened
  · -- the party itself is gone from those with open entries
    have hsub := Finset.card_le_card (Finset.filter_subset (fun j => k < (s.opened.filter (· ≠ i)).count j)
      (parties (s.opened.filter (· ≠ i))))
    have hparty : i ∈ parties s.opened := List.mem_toFinset.2 hmem
    rw [← above, parties_filter_ne, Finset.card_erase_of_mem hparty] at hsub
    have hpos : 0 < (parties s.opened).card := Finset.card_pos.2 ⟨i, hparty⟩
    have hfew := h.few
    omega
  · have hmono := above_filter_ne s.opened i k
    rw [List.count_eq_zero_of_not_mem hmem] at hn
    have hlate := h.late k hk hn
    omega

/-- **The invariant is kept**, by a step after which at most `c` parties have open entries. -/
theorem step_inv {n c : ℕ} {s s' : St P} (h : Inv n c s) (hs : Step n s s') (few : (parties s'.opened).card ≤ c) :
    Inv n c s' := by
  cases hs with
  | enter i hi =>
    have hcount := count_cons_late hi h.each
    have late : ∀ k, k < n → n ≤ s.settled + k → (above (i :: s.opened) k).card + 1 ≤ c := by
      intro k hk hn
      have hmono := above_mono fun j => (hcount j).2 k hn
      have hlate := h.late k hk hn
      omega
    refine ⟨few, fun j => (hcount j).1, late, ?_⟩
    exact total_le (s := ⟨s.settled, i :: s.opened⟩) (by dsimp only; omega) few (fun j => (hcount j).1) late
  | settle i =>
    have hlen := length_filter_ne s.opened i
    refine ⟨few, fun j => (count_filter_ne _ i j).trans (h.each j), fun k hk hn => settle_late h i hk hn, ?_⟩
    have htotal := h.total
    dsimp only
    omega
  | drop i =>
    have hlen := length_filter_ne s.opened i
    refine ⟨few, fun j => (count_filter_ne _ i j).trans (h.each j), fun k hk hn => ?_, ?_⟩
    · have hmono := above_filter_ne s.opened i k
      have hlate := h.late k hk hn
      dsimp only at hmono ⊢
      omega
    · have htotal := h.total
      dsimp only
      omega
  | reorder opened hp =>
    have habove : ∀ k, above opened k = above s.opened k := by
      intro k
      ext i
      rw [mem_above, mem_above, hp.count_eq]
    refine ⟨few, fun i => ?_, fun k hk hn => ?_, ?_⟩
    · rw [← hp.count_eq]
      exact h.each i
    · rw [habove]
      exact h.late k hk hn
    · rw [← hp.length_eq]
      exact h.total

theorem Inv.settled_le {n c : ℕ} {s : St P} (h : Inv n c s) : s.settled ≤ n * c :=
  (Nat.le_add_right _ _).trans h.total

end IconSetup.Admission
