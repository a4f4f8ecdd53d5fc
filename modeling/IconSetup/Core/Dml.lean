/-
Data statements on one table with a primary key and a check on the values of a row, as a fold over the rows the
statement touches. A statement that meets a row it may not store is refused as a whole (`none`).

- `insertRows`: INSERT and COPY append their rows one by one; each must pass the check and bring a new key.
- `updateRows`: UPDATE rewrites the rows its WHERE selects; each rewritten row must pass the check, and its key must
  differ from the key of every other row at that moment (a unique index is checked row by row).
- `insertRows_eq`, `updateRows_mem`: what an accepted statement leaves, row by row.
- `insertRows_keys`, `updateRows_keys`: an accepted statement keeps the keys unique.
- `insertRows_iff`: INSERT is accepted iff all its rows pass the check and no key is repeated.
-/
import Mathlib.Tactic

namespace IconSetup.Dml

/-- a statement on a table of rows `R`; the function of `update` gives `none` where WHERE does not match -/
inductive Stmt (R : Type) where
  | insert (rows : List R)
  | copy (rows : List R)
  | update (set : R → Option R)

section
variable {R K : Type} [DecidableEq K] (key : R → K) (ok : R → Bool)

def insertRows (tab : List R) : List R → Option (List R)
  | [] => some tab
  | r :: rs => if ok r ∧ key r ∉ tab.map key then insertRows (tab ++ [r]) rs else none

/-- `done` holds the rows already passed, in their new form -/
def updateRows (set : R → Option R) (done : List R) : List R → Option (List R)
  | [] => some done
  | r :: rs =>
    match set r with
    | none => updateRows set (done ++ [r]) rs
    | some r' =>
      if ok r' ∧ key r' ∉ (done ++ rs).map key then updateRows set (done ++ [r']) rs else none

def exec (tab : List R) : Stmt R → Option (List R)
  | .insert rows => insertRows key ok tab rows
  | .copy rows => insertRows key ok tab rows
  | .update set => updateRows key ok set [] tab

theorem insertRows_eq (tab rows tab' : List R) (h : insertRows key ok tab rows = some tab') :
    tab' = tab ++ rows ∧ ∀ r ∈ rows, ok r = true := by
  induction rows generalizing tab with
  | nil => simp only [insertRows, Option.some.injEq] at h; simp [h]
  | cons r rs ih =>
    simp only [insertRows] at h
    split_ifs at h with hr
    obtain ⟨h1, h2⟩ := ih _ h
    refine ⟨by simpa using h1, fun x hx => ?_⟩
    rcases List.mem_cons.1 hx with rfl | hx
    · exact hr.1
    · exact h2 x hx

theorem insertRows_keys (tab rows tab' : List R) (hk : (tab.map key).Nodup)
    (h : insertRows key ok tab rows = some tab') : (tab'.map key).Nodup := by
  induction rows generalizing tab with
  | nil => simp only [insertRows, Option.some.injEq] at h; rwa [← h]
  | cons r rs ih =>
    simp only [insertRows] at h
    split_ifs at h with hr
    refine ih (tab ++ [r]) ?_ h
    rw [List.map_append, List.nodup_append]
    refine ⟨hk, by simp, fun a ha b hb => ?_⟩
    simp only [List.map_cons, List.map_nil, List.mem_singleton] at hb
    subst hb
    exact fun he => hr.2 (he ▸ ha)

theorem insertRows_iff (tab rows : List R) (hk : (tab.map key).Nodup) :
    (∃ tab', insertRows key ok tab rows = some tab') ↔ (∀ r ∈ rows, ok r = true) ∧ ((tab ++ rows).map key).Nodup := by
  constructor
  · rintro ⟨tab', h⟩
    obtain ⟨rfl, hok⟩ := insertRows_eq key ok tab rows tab' h
    exact ⟨hok, insertRows_keys key ok tab rows _ hk h⟩
  · induction rows generalizing tab with
    | nil => intro _; exact ⟨tab, rfl⟩
    | cons r rs ih =>
      rintro ⟨hok, hn⟩
      have happ : tab ++ r :: rs = tab ++ [r] ++ rs := by simp
      rw [happ] at hn
      have hn1 : ((tab ++ [r]).map key).Nodup := by
        rw [List.map_append] at hn
        exact (List.nodup_append.1 hn).1
      have hnew : key r ∉ tab.map key := by
        intro hmem
        rw [List.map_append, List.nodup_append] at hn1
        exact hn1.2.2 _ hmem _ List.mem_cons_self rfl
      rw [insertRows, if_pos ⟨hok r List.mem_cons_self, hnew⟩]
      apply ih (tab ++ [r]) hn1
      exact ⟨fun x hx => hok x (List.mem_cons_of_mem r hx), hn⟩

/-- every row left by an accepted UPDATE was passed before, was not selected, or is a checked rewrite of a row -/
theorem updateRows_mem (set : R → Option R) (done rs tab' : List R)
    (h : updateRows key ok set done rs = some tab') :
    ∀ x ∈ tab', x ∈ done ∨ (x ∈ rs ∧ set x = none) ∨ ∃ r ∈ rs, set r = some x ∧ ok x = true := by
  induction rs generalizing done with
  | nil => intro x hx; simp only [updateRows, Option.some.injEq] at h; exact Or.inl (h ▸ hx)
  | cons r rs ih =>
    intro x hx
    simp only [updateRows] at h
    cases hs : set r with
    | none =>
      rw [hs] at h
      rcases ih _ h x hx with hd | ⟨hm, hn⟩ | ⟨r', hm, he, ho⟩
      · rcases List.mem_append.1 hd with hd | hd
        · exact Or.inl hd
        · rw [List.mem_singleton] at hd; subst hd; exact Or.inr (Or.inl ⟨List.mem_cons_self, hs⟩)
      · exact Or.inr (Or.inl ⟨List.mem_cons_of_mem _ hm, hn⟩)
      · exact Or.inr (Or.inr ⟨r', List.mem_cons_of_mem _ hm, he, ho⟩)
    | some r1 =>
      simp only [hs] at h
      split_ifs at h with hr
      rcases ih _ h x hx with hd | ⟨hm, hn⟩ | ⟨r', hm, he, ho⟩
      · rcases List.mem_append.1 hd with hd | hd
        · exact Or.inl hd
        · rw [List.mem_singleton] at hd; subst hd; exact Or.inr (Or.inr ⟨r, List.mem_cons_self, hs, hr.1⟩)
      · exact Or.inr (Or.inl ⟨List.mem_cons_of_mem _ hm, hn⟩)
      · exact Or.inr (Or.inr ⟨r', List.mem_cons_of_mem _ hm, he, ho⟩)

theorem updateRows_keys (set : R → Option R) (done rs tab' : List R) (hk : ((done ++ rs).map key).Nodup)
    (h : updateRows key ok set done rs = some tab') : (tab'.map key).Nodup := by
  induction rs generalizing done with
  | nil => simp only [updateRows, Option.some.injEq] at h; rw [← h]; simpa using hk
  | cons r rs ih =>
    simp only [updateRows] at h
    cases hs : set r with
    | none => rw [hs] at h; exact ih (done ++ [r]) (by simpa using hk) h
    | some r1 =>
      simp only [hs] at h
      split_ifs at h with hr
      refine ih (done ++ [r1]) ?_ h
      -- the rewritten row takes the place of the old one among keys that are still all different
      have hrest : ((done ++ rs).map key).Nodup :=
        hk.sublist (((List.Sublist.refl done).append (List.sublist_cons_self r rs)).map key)
      have hperm : ((done ++ [r1] ++ rs).map key).Perm (key r1 :: (done ++ rs).map key) := by
        simp only [List.append_assoc, List.singleton_append, List.map_append, List.map_cons]
        exact List.perm_middle
      exact hperm.nodup_iff.2 (List.nodup_cons.2 ⟨hr.2, hrest⟩)

theorem exec_keys (tab tab' : List R) (d : Stmt R) (hk : (tab.map key).Nodup) (h : exec key ok tab d = some tab') :
    (tab'.map key).Nodup := by
  cases d with
  | insert rows => exact insertRows_keys key ok tab rows tab' hk h
  | copy rows => exact insertRows_keys key ok tab rows tab' hk h
  | update set => exact updateRows_keys key ok set [] tab tab' (by simpa using hk) h

end

end IconSetup.Dml
