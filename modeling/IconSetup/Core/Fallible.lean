/-
Computations that may raise an error, as `Option`. A nullable value is itself an `Option`, so a computation on one is
an `Option (Option β)`: `none` on the outside is the error, `none` on the inside is NULL.

- `strict`: a strict function is not called on NULL and gives NULL.
- `mapM_eq_some`: a computation over a list succeeds iff it succeeds on each element, with the results in order.
- `mapM_eq_map`: a computation that is a guarded function succeeds iff the guard holds of each element.
- `mem_mapM`: the results, by membership. `mapM_mem`, `mapM_of_forall`: success, by membership.
-/
import Mathlib.Tactic

namespace IconSetup.Fallible

variable {α β : Type*}

def strict (f : α → Option β) : Option α → Option (Option β)
  | none => some none
  | some a => (f a).map some

theorem mapM_eq_some {f : α → Option β} {l : List α} {r : List β} :
    l.mapM f = some r ↔ List.Forall₂ (fun a b => f a = some b) l r := by
  induction l generalizing r with
  | nil =>
    constructor
    · intro h; cases h; exact List.Forall₂.nil
    · intro h; cases h; rfl
  | cons a l ih =>
    rw [List.mapM_cons]
    constructor
    · intro h
      obtain ⟨b, hb, h⟩ := Option.bind_eq_some_iff.1 h
      obtain ⟨bs, hbs, h⟩ := Option.bind_eq_some_iff.1 h
      cases h
      exact List.Forall₂.cons hb (ih.1 hbs)
    · intro h
      cases h with
      | cons hb hbs => rw [hb, ih.2 hbs]; rfl

theorem mapM_eq_map {f : α → Option β} {g : α → β} {P : α → Prop} (hf : ∀ a b, f a = some b ↔ P a ∧ b = g a)
    {l : List α} {r : List β} : l.mapM f = some r ↔ (∀ a ∈ l, P a) ∧ r = l.map g := by
  rw [mapM_eq_some]
  constructor
  · intro h
    induction h with
    | nil => exact ⟨fun a ha => absurd ha List.not_mem_nil, rfl⟩
    | cons hab _ ih =>
      obtain ⟨hP, hb⟩ := (hf _ _).1 hab
      refine ⟨fun x hx => ?_, by rw [List.map_cons, ← ih.2, hb]⟩
      rcases List.mem_cons.1 hx with rfl | hx
      · exact hP
      · exact ih.1 x hx
  · rintro ⟨hP, rfl⟩
    rw [List.forall₂_map_right_iff]
    exact List.forall₂_same.2 fun a ha => (hf _ _).2 ⟨hP a ha, rfl⟩

theorem mem_mapM {f : α → Option β} {l : List α} {r : List β} (h : l.mapM f = some r) (b : β) :
    b ∈ r ↔ ∃ a ∈ l, f a = some b := by
  rw [mapM_eq_some] at h
  induction h with
  | nil => simp
  | cons hab _ ih =>
    rw [List.mem_cons, ih]
    constructor
    · intro hb
      rcases hb with rfl | ⟨a, ha, hf⟩
      · exact ⟨_, List.mem_cons_self, hab⟩
      · exact ⟨a, List.mem_cons_of_mem _ ha, hf⟩
    · intro ⟨a, ha, hf⟩
      rcases List.mem_cons.1 ha with rfl | ha
      · left; rw [hab] at hf; exact (Option.some.inj hf).symm
      · exact Or.inr ⟨a, ha, hf⟩

theorem mapM_mem {f : α → Option β} {l : List α} {r : List β} (h : l.mapM f = some r) : ∀ a ∈ l, ∃ b, f a = some b := by
  rw [mapM_eq_some] at h
  induction h with
  | nil => simp
  | cons hab _ ih =>
    intro a ha
    rcases List.mem_cons.1 ha with rfl | ha
    · exact ⟨_, hab⟩
    · exact ih a ha

theorem mapM_of_forall {f : α → Option β} {l : List α} (h : ∀ a ∈ l, ∃ b, f a = some b) : ∃ r, l.mapM f = some r := by
  induction l with
  | nil => exact ⟨[], rfl⟩
  | cons a l ih =>
    obtain ⟨b, hb⟩ := h a List.mem_cons_self
    obtain ⟨r, hr⟩ := ih fun x hx => h x (List.mem_cons_of_mem _ hx)
    exact ⟨b :: r, by rw [List.mapM_cons, hb, hr]; rfl⟩

end IconSetup.Fallible
