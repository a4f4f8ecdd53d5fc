/-
SQL queries over tables given as lists of rows: joins, WHERE, GROUP BY, array_agg, UNION, ORDER BY.

A list is a bag of rows in some physical order. A query fixes an order of its own rows only by ORDER BY; results about
queries are therefore up to `List.Perm`, except for the sorted order itself.
- `leftJoin_eq`: a left join extends every row by its matches, and by one all-NULL match when it has none.
- `select_groupBy`: when the rows come from a base table with one key per base row, grouping by that key gives one
  group per base row, holding all its extensions. This is how a join that multiplies rows is undone by GROUP BY.
- `union_perm`: UNION removes nothing when the rows are all different.
- `orderBy_perm`, `orderBy_sorted`: ORDER BY only permutes, and sorts.
-/
import Mathlib.Tactic
import IconSetup.Core.Ternary

namespace IconSetup.Query

open IconSetup.Ternary

variable {α β γ K ρ σ : Type*}

/-! ## Joins -/

/-- INNER JOIN -/
def innerJoin (on : α → β → Tri) (xs : List α) (ys : List β) : List (α × β) :=
  xs.flatMap fun x => (ys.filter fun y => holds (on x y)).map fun y => (x, y)

/-- the rows a LEFT JOIN makes of one row: its matches, or one match with NULLs -/
def leftRows (on : α → β → Tri) (ys : List β) (x : α) : List (α × Option β) :=
  match ys.filter fun y => holds (on x y) with
  | [] => [(x, none)]
  | m :: ms => (m :: ms).map fun y => (x, some y)

/-- LEFT OUTER JOIN -/
def leftJoin (on : α → β → Tri) (xs : List α) (ys : List β) : List (α × Option β) := xs.flatMap (leftRows on ys)

theorem mem_innerJoin {on : α → β → Tri} {xs : List α} {ys : List β} {p : α × β} :
    p ∈ innerJoin on xs ys ↔ p.1 ∈ xs ∧ p.2 ∈ ys ∧ holds (on p.1 p.2) = true := by
  simp only [innerJoin, List.mem_flatMap, List.mem_map, List.mem_filter]
  constructor
  · rintro ⟨x, hx, y, ⟨hy, hon⟩, rfl⟩; exact ⟨hx, hy, hon⟩
  · rintro ⟨hx, hy, hon⟩; exact ⟨p.1, hx, p.2, ⟨hy, hon⟩, rfl⟩

theorem nodup_innerJoin (on : α → β → Tri) {xs : List α} {ys : List β} (hx : xs.Nodup) (hy : ys.Nodup) :
    (innerJoin on xs ys).Nodup := by
  refine List.nodup_flatMap.2 ⟨fun x _ => (hy.filter _).map (fun a b h => (Prod.mk.inj h).2), ?_⟩
  refine hx.imp fun {x x'} hne p hp hp' => ?_
  obtain ⟨y, -, rfl⟩ := List.mem_map.1 hp
  obtain ⟨y', -, h⟩ := List.mem_map.1 hp'
  exact hne (Prod.mk.inj h).1.symm

theorem mem_leftRows {on : α → β → Tri} {ys : List β} {x : α} {p : α × Option β} :
    p ∈ leftRows on ys x ↔ p.1 = x ∧
      ((∃ y ∈ ys, holds (on x y) = true ∧ p.2 = some y) ∨ p.2 = none ∧ ∀ y ∈ ys, ¬ holds (on x y) = true) := by
  obtain ⟨x', y'⟩ := p
  unfold leftRows
  split
  · rename_i hf
    rw [List.filter_eq_nil_iff] at hf
    constructor
    · intro h; simp only [List.mem_singleton, Prod.mk.injEq] at h; exact ⟨h.1, Or.inr ⟨h.2, hf⟩⟩
    · rintro ⟨h1, ⟨y, hy, hon, -⟩ | ⟨h2, -⟩⟩
      · exact absurd hon (hf y hy)
      · simp only at h1 h2; simp [h1, h2]
  · rename_i m ms hf
    rw [← hf]
    have hm : m ∈ ys.filter fun y => holds (on x y) := by rw [hf]; exact List.mem_cons_self
    constructor
    · intro h
      obtain ⟨y, hy, he⟩ := List.mem_map.1 h
      obtain ⟨hys, hon⟩ := List.mem_filter.1 hy
      cases he
      exact ⟨rfl, Or.inl ⟨y, hys, hon, rfl⟩⟩
    · rintro ⟨h1, ⟨y, hy, hon, h2⟩ | ⟨-, h3⟩⟩
      · simp only at h1 h2; subst h1 h2; exact List.mem_map.2 ⟨y, List.mem_filter.2 ⟨hy, hon⟩, rfl⟩
      · exact absurd (List.mem_filter.1 hm).2 (h3 m (List.mem_filter.1 hm).1)

theorem leftRows_ne_nil (on : α → β → Tri) (ys : List β) (x : α) : leftRows on ys x ≠ [] := by
  unfold leftRows; split <;> simp

theorem flatMap_ne_nil {xs : List α} {f : α → List β} (hx : xs ≠ []) (hf : ∀ x ∈ xs, f x ≠ []) :
    xs.flatMap f ≠ [] := by
  obtain ⟨x, xs, rfl⟩ := List.exists_cons_of_ne_nil hx
  rw [List.flatMap_cons]
  exact fun h => hf x List.mem_cons_self (List.append_eq_nil_iff.1 h).1

/-- a condition on the base row alone selects among base rows -/
theorem filter_flatMap_of {xs : List α} {f : α → List β} {p : β → Bool} {q : α → Bool}
    (h : ∀ x ∈ xs, ∀ y ∈ f x, p y = q x) : (xs.flatMap f).filter p = (xs.filter q).flatMap f := by
  induction xs with
  | nil => rfl
  | cons x xs ih =>
    have hx : (f x).filter p = if q x then f x else [] := by
      split_ifs with hq
      · exact List.filter_eq_self.2 fun y hy => by rw [h x List.mem_cons_self y hy, hq]
      · exact List.filter_eq_nil_iff.2 fun y hy => by rw [h x List.mem_cons_self y hy]; exact hq
    rw [List.flatMap_cons, List.filter_append, hx, ih fun x' hx' => h x' (List.mem_cons_of_mem x hx'), List.filter_cons]
    split_ifs <;> simp

/-! ## Grouping -/

/-- GROUP BY: one group for each key, holding all rows with that key -/
def groupBy [DecidableEq K] (key : α → K) (xs : List α) : List (List α) :=
  (xs.map key).dedup.map fun k => xs.filter fun x => decide (key x = k)

/-- the SELECT list of a grouped query: `sel` reads the columns the key determines off a row of the group, and
aggregates over the whole group -/
def selectGroups (sel : α → List α → ρ) (groups : List (List α)) : List ρ :=
  groups.filterMap fun g => g.head?.map fun x => sel x g

/-- array_agg: NULL over no rows -/
def arrayAgg : List α → Option (List α)
  | [] => none
  | x :: xs => some (x :: xs)

section
variable [DecidableEq K] {key : β → K} {k : α → K} {ext : α → List β} {base : List α}

theorem filter_ext (hk : (base.map k).Nodup) (hkey : ∀ b ∈ base, ∀ r ∈ ext b, key r = k b) (b : α) (hb : b ∈ base) :
    (base.flatMap ext).filter (fun r => decide (key r = k b)) = ext b := by
  have hself : ∀ b' ∈ base, k b' = k b → b' = b := fun b' hb' h => List.inj_on_of_nodup_map hk hb' hb h
  rw [filter_flatMap_of (q := fun b' => decide (k b' = k b)) fun b' hb' r hr => by rw [hkey b' hb' r hr]]
  have : base.filter (fun b' => decide (k b' = k b)) = [b] := by
    have hn : (base.filter fun b' => decide (k b' = k b)).Nodup := (hk.of_map k).filter _
    have hp : (base.filter fun b' => decide (k b' = k b)).Perm [b] := by
      apply (List.perm_ext_iff_of_nodup hn (List.nodup_singleton b)).2
      intro x
      simp only [List.mem_filter, decide_eq_true_eq, List.mem_singleton]
      constructor
      · exact fun h => hself x h.1 h.2
      · rintro rfl; exact ⟨hb, rfl⟩
    exact List.perm_singleton.1 hp
  simp [this]

theorem groupBy_flatMap (hk : (base.map k).Nodup) (hne : ∀ b ∈ base, ext b ≠ [])
    (hkey : ∀ b ∈ base, ∀ r ∈ ext b, key r = k b) : (groupBy key (base.flatMap ext)).Perm (base.map ext) := by
  have hkeys : ((base.flatMap ext).map key).dedup.Perm (base.map k) := by
    apply (List.perm_ext_iff_of_nodup (List.nodup_dedup _) hk).2
    intro x
    simp only [List.mem_dedup, List.mem_map, List.mem_flatMap]
    constructor
    · rintro ⟨r, ⟨b, hb, hr⟩, rfl⟩; exact ⟨b, hb, (hkey b hb r hr).symm⟩
    · rintro ⟨b, hb, rfl⟩
      obtain ⟨r, rs, he⟩ := List.exists_cons_of_ne_nil (hne b hb)
      have hr : r ∈ ext b := by rw [he]; exact List.mem_cons_self
      exact ⟨r, ⟨b, hb, hr⟩, hkey b hb r hr⟩
  refine (hkeys.map _).trans (List.Perm.of_eq ?_)
  rw [List.map_map]
  exact List.map_congr_left fun b hb => filter_ext hk hkey b hb

/-- **Grouping undoes the multiplication of rows.** Over the extensions of base rows with one key each, a grouped
query gives one row for each base row. -/
theorem select_groupBy {sel : β → List β → ρ} {out : α → ρ} (hk : (base.map k).Nodup) (hne : ∀ b ∈ base, ext b ≠ [])
    (hkey : ∀ b ∈ base, ∀ r ∈ ext b, key r = k b) (hsel : ∀ b ∈ base, ∀ r ∈ ext b, sel r (ext b) = out b) :
    (selectGroups sel (groupBy key (base.flatMap ext))).Perm (base.map out) := by
  refine ((groupBy_flatMap hk hne hkey).filterMap _).trans (List.Perm.of_eq ?_)
  rw [List.filterMap_map, List.filterMap_eq_map_iff_forall_eq_some.2]
  intro b hb
  obtain ⟨r, rs, he⟩ := List.exists_cons_of_ne_nil (hne b hb)
  have hr : r ∈ ext b := by rw [he]; exact List.mem_cons_self
  simp only [Function.comp]
  rw [← hsel b hb r hr, he]; rfl

end

/-! ## Bags -/

/-- UNION: equal rows are kept once -/
def union [DecidableEq ρ] (xs ys : List ρ) : List ρ := (xs ++ ys).dedup

/-- UNION ALL -/
def unionAll (xs ys : List ρ) : List ρ := xs ++ ys

theorem union_perm [DecidableEq ρ] {xs ys zs : List ρ} (hp : (xs ++ ys).Perm zs) (hz : zs.Nodup) :
    (union xs ys).Perm zs := by
  rw [union, List.Nodup.dedup (hp.nodup_iff.2 hz)]; exact hp

/-- a permutation of an image is the image of a permutation -/
theorem exists_map_of_perm {f : α → β} {ks : List α} {l : List β} (h : l.Perm (ks.map f)) :
    ∃ ks' : List α, ks'.Perm ks ∧ l = ks'.map f := by
  have hf : List.Forall₂ (fun b a => b = f a) (ks.map f) ks := by
    rw [List.forall₂_map_left_iff]; exact List.forall₂_same.2 fun _ _ => rfl
  obtain ⟨ks', h1, h2⟩ := List.perm_comp_forall₂ h hf
  refine ⟨ks', h2, ?_⟩
  clear h h2
  induction h1 with
  | nil => rfl
  | cons hab _ ih => rw [List.map_cons, hab, ih]

/-! ## Order -/

/-- an ascending column with NULLS LAST, the default -/
def nullsLast (le : α → α → Bool) : Option α → Option α → Bool
  | _, none => true
  | none, some _ => false
  | some a, some b => le a b

/-- order by one key and, where it ties, by the next -/
def thenBy (le le' : ρ → ρ → Bool) (x y : ρ) : Bool := if le y x then le x y && le' x y else true

/-- a total preorder, as ORDER BY needs -/
structure Preorders (le : ρ → ρ → Bool) : Prop where
  total : ∀ a b, (le a b || le b a) = true
  trans : ∀ a b c, le a b = true → le b c = true → le a c = true

theorem Preorders.nullsLast {le : α → α → Bool} (h : Preorders le) : Preorders (nullsLast le) where
  total := by
    rintro (_ | a) (_ | b)
    all_goals first | rfl | exact h.total a b
  trans := by
    rintro (_ | a) (_ | b) (_ | c) hab hbc
    all_goals first | rfl | exact hbc | exact hab | exact h.trans a b c hab hbc | simp [Query.nullsLast] at hab hbc

theorem Preorders.on {le : σ → σ → Bool} (h : Preorders le) (f : ρ → σ) : Preorders fun x y => le (f x) (f y) where
  total a b := h.total (f a) (f b)
  trans a b c := h.trans (f a) (f b) (f c)

theorem Preorders.thenBy {le le' : ρ → ρ → Bool} (h : Preorders le) (h' : Preorders le') : Preorders (thenBy le le') where
  total a b := by
    have h1 := h.total a b
    have h2 := h'.total a b
    simp only [Query.thenBy]
    cases hab : le a b <;> cases hba : le b a <;> simp_all
  trans a b c := by
    simp only [Query.thenBy]
    intro hab hbc
    have ta := h.total a b
    have tb := h.total b c
    have t1 := h.trans a b c
    have t2 := h.trans c b a
    have t3 := h.trans b c a
    have t4 := h.trans c a b
    have t5 := h'.trans a b c
    cases h1 : le a b <;> cases h2 : le b a <;> cases h3 : le b c <;> cases h4 : le c b <;>
      cases h5 : le a c <;> cases h6 : le c a <;> simp_all

/-- ORDER BY -/
def orderBy (le : ρ → ρ → Bool) (xs : List ρ) : List ρ := xs.mergeSort le

theorem orderBy_perm (le : ρ → ρ → Bool) (xs : List ρ) : (orderBy le xs).Perm xs := List.mergeSort_perm xs le

theorem orderBy_sorted {le : ρ → ρ → Bool} (h : Preorders le) (xs : List ρ) :
    (orderBy le xs).Pairwise fun x y => le x y = true :=
  List.pairwise_mergeSort h.trans h.total xs

end IconSetup.Query
