/-
JSON values that are equal whatever their white space, the spelling of their strings and the order of their members;
and what the text of a value weighs, where each character has a weight and white space has none.

- `weigh_text`: a text weighs what its strings weigh and what is left without them.
- `same_outside`: equal values weigh the same without their strings.
- `same_units`: equal values have the same strings.
-/
import Mathlib.Tactic
import IconSetup.Core.JsString
import IconSetup.Core.JsonStrings

namespace IconSetup.JsonEqual

open IconSetup.JsonLex IconSetup.JsonText IconSetup.JsonStrings IconSetup.JsString

/-! ## Equal values -/

/-- numbers are compared as they are written -/
inductive Same : Value → Value → Prop where
  | null : Same .null .null
  | true : Same .true .true
  | false : Same .false .false
  | num (lit : Text) : Same (.num lit) (.num lit)
  | str {a b : Text} : decode a = decode b → Same (.str a) (.str b)
  | arr {ws ws' : Text} {items items' : List Item} : items.length = items'.length →
      (∀ p ∈ items.zip items', Same p.1.2.1 p.2.2.1) → Same (.arr ws items) (.arr ws' items')
  /-- the members of the second object in the order of those of the first -/
  | obj {ws ws' : Text} {members members' ordered : List Member} : ordered.Perm members' →
      members.length = ordered.length → (∀ p ∈ members.zip ordered, decode p.1.1.2.1 = decode p.2.1.2.1) →
      (∀ p ∈ members.zip ordered, Same p.1.2.2.1 p.2.2.2.1) → Same (.obj ws members) (.obj ws' members')

/-! ## Other strings -/

mutual

/-- the value with other raw strings -/
def mapStrings (f : Text → Text) : Value → Value
  | .null => .null
  | .true => .true
  | .false => .false
  | .num lit => .num lit
  | .str raw => .str (f raw)
  | .arr ws items => .arr ws (mapItems f items)
  | .obj ws members => .obj ws (mapMembers f members)

def mapItems (f : Text → Text) : List (Text × Value × Text) → List (Text × Value × Text)
  | [] => []
  | (before, v, after) :: items => (before, mapStrings f v, after) :: mapItems f items

def mapMembers (f : Text → Text) :
    List ((Text × Text × Text) × Text × Value × Text) → List ((Text × Text × Text) × Text × Value × Text)
  | [] => []
  | ((b, key, a), before, v, after) :: members =>
    ((b, f key, a), before, mapStrings f v, after) :: mapMembers f members

end

theorem mapItems_eq (f : Text → Text) (items : List Item) :
    mapItems f items = items.map fun i => (i.1, mapStrings f i.2.1, i.2.2) := by
  induction items with
  | nil => simp [mapItems]
  | cons i items ih =>
    obtain ⟨before, v, after⟩ := i
    rw [mapItems, ih, List.map_cons]

theorem mapMembers_eq (f : Text → Text) (members : List Member) :
    mapMembers f members =
      members.map fun m => ((m.1.1, f m.1.2.1, m.1.2.2), m.2.1, mapStrings f m.2.2.1, m.2.2.2) := by
  induction members with
  | nil => simp [mapMembers]
  | cons m members ih =>
    obtain ⟨⟨b, key, a⟩, before, v, after⟩ := m
    rw [mapMembers, ih, List.map_cons]

/-- strings that stay as they are -/
theorem mapStrings_id {f : Text → Text} {v : Value} (hv : Valid v) (h : ∀ raw ∈ strings v, f raw = raw) :
    mapStrings f v = v := by
  induction hv with
  | str _ => exact congrArg Value.str (h _ (by simp [strings]))
  | arr _ _ _ _ _ ih =>
    rw [mapStrings, mapItems_eq]
    refine congrArg _ (List.map_congr_left (fun i hi => ?_) |>.trans (List.map_id _))
    rw [ih i hi fun raw hraw => h raw ?_]
    · rfl
    · rw [strings, stringsItems_eq]
      exact List.mem_flatMap.2 ⟨i, hi, hraw⟩
  | @obj ws members _ _ _ _ _ _ ih =>
    rw [mapStrings, mapMembers_eq]
    have hmem : ∀ m ∈ members, ∀ raw ∈ m.1.2.1 :: strings m.2.2.1, f raw = raw := by
      intro m hm raw hraw
      refine h raw ?_
      rw [strings, stringsMembers_eq]
      exact List.mem_flatMap.2 ⟨m, hm, hraw⟩
    refine congrArg _ (List.map_congr_left (fun m hm => ?_) |>.trans (List.map_id _))
    rw [ih m hm fun raw hraw => hmem m hm raw (List.mem_cons_of_mem _ hraw), hmem m hm _ List.mem_cons_self]
    rfl
  | _ => simp [mapStrings]

/-! ## Weights -/

section
variable {M : Type*} [AddCommMonoid M] (w : Char → M)

def weigh (s : Text) : M := (s.map w).sum

/-- the value with empty strings -/
def outside (v : Value) : Value := mapStrings (fun _ => []) v

@[simp] theorem weigh_nil : weigh w [] = 0 := rfl

@[simp] theorem weigh_cons (c : Char) (s : Text) : weigh w (c :: s) = w c + weigh w s := by
  simp [weigh]

@[simp] theorem weigh_append (a b : Text) : weigh w (a ++ b) = weigh w a + weigh w b := by
  simp [weigh]

theorem sum_flatMap {α β : Type} (g : α → List β) (h : β → M) (xs : List α) :
    ((xs.flatMap g).map h).sum = (xs.map fun x => ((g x).map h).sum).sum := by
  rw [List.map_flatMap, List.flatMap_def, List.sum_flatten, List.map_map]
  rfl

theorem weigh_flatMap {α : Type} (f : α → Text) (xs : List α) :
    weigh w (xs.flatMap f) = (xs.map fun x => weigh w (f x)).sum := sum_flatMap f w xs

theorem weigh_entries {α : Type} (text : α → Text) (close : Char) (xs : List α) :
    weigh w (entriesText text close xs) =
      (xs.map fun x => weigh w (text x)).sum + (xs.length - 1) • w ',' + w close := by
  cases xs with
  | nil => simp [entriesText]
  | cons x xs =>
    have hmore : (xs.map fun x => weigh w (',' :: text x)).sum =
        xs.length • w ',' + (xs.map fun x => weigh w (text x)).sum := by
      simp only [weigh_cons]
      rw [List.sum_map_add, List.map_const', List.sum_replicate]
    rw [entriesText, moreText, weigh_append, weigh_append, weigh_flatMap, hmore]
    simp only [List.map_cons, List.sum_cons, List.length_cons, Nat.add_sub_cancel, weigh_cons, weigh_nil, add_zero]
    abel

theorem weigh_item (b a : Text) (v : Value) :
    weigh w (itemText (b, v, a)) = weigh w b + weigh w v.text + weigh w a := by
  simp [itemText, add_assoc]

theorem weigh_member (b k a before after : Text) (v : Value) : weigh w (memberText ((b, k, a), before, v, after)) =
    weigh w b + w '"' + weigh w k + w '"' + weigh w a + w ':' + weigh w before + weigh w v.text + weigh w after := by
  simp only [memberText, keyText, itemText, weigh_append, weigh_cons, weigh_nil]
  abel

/-- **A text weighs what is left without its strings, and what they weigh.** -/
theorem weigh_text (f : Text → Text) {v : Value} (hv : Valid v) : weigh w (mapStrings f v).text =
    weigh w (outside v).text + ((strings v).map fun raw => weigh w (f raw)).sum := by
  induction hv with
  | str _ =>
    simp only [outside, mapStrings, Value.text, strings, weigh_cons, weigh_append, weigh_nil, List.map_cons,
      List.map_nil, List.sum_cons, List.sum_nil]
    abel
  | @arr ws items _ _ _ _ _ ih =>
    have hitem : ∀ i ∈ items, weigh w (itemText (i.1, mapStrings f i.2.1, i.2.2)) =
        weigh w (itemText (i.1, outside i.2.1, i.2.2)) + ((strings i.2.1).map fun raw => weigh w (f raw)).sum := by
      intro i hi
      rw [weigh_item, weigh_item, ih i hi]
      abel
    simp only [outside, mapStrings, Value.text, mapItems_eq, itemsText_eq, strings, stringsItems_eq, weigh_cons,
      weigh_append, weigh_entries, List.map_map, List.length_map, Function.comp_def, sum_flatMap]
    rw [List.map_congr_left hitem, List.sum_map_add]
    simp only [outside]
    abel
  | @obj ws members _ _ _ _ _ _ ih =>
    have hmember : ∀ m ∈ members,
        weigh w (memberText ((m.1.1, f m.1.2.1, m.1.2.2), m.2.1, mapStrings f m.2.2.1, m.2.2.2)) =
          weigh w (memberText ((m.1.1, [], m.1.2.2), m.2.1, outside m.2.2.1, m.2.2.2)) +
            ((m.1.2.1 :: strings m.2.2.1).map fun raw => weigh w (f raw)).sum := by
      intro m hm
      rw [weigh_member, weigh_member, ih m hm, List.map_cons, List.sum_cons, weigh_nil]
      abel
    simp only [outside, mapStrings, Value.text, mapMembers_eq, membersText_eq, strings, stringsMembers_eq, weigh_cons,
      weigh_append, weigh_entries, List.map_map, List.length_map, Function.comp_def, sum_flatMap]
    rw [List.map_congr_left hmember, List.sum_map_add]
    simp only [outside]
    abel
  | _ => simp [outside, mapStrings, strings]

/-! ## Equal values weigh the same -/

theorem map_eq_of_zip {α : Type} {β : Type*} {f : α → β} {l l' : List α} (hlength : l.length = l'.length)
    (h : ∀ p ∈ l.zip l', f p.1 = f p.2) : l.map f = l'.map f := by
  induction l generalizing l' with
  | nil =>
    cases l' with
    | nil => rfl
    | cons y l' => cases hlength
  | cons x l ih =>
    cases l' with
    | nil => cases hlength
    | cons y l' =>
      rw [List.map_cons, List.map_cons, h (x, y) List.mem_cons_self,
        ih (Nat.succ.inj hlength) fun p hp => h p (List.mem_cons_of_mem _ hp)]

/-- **Equal values have the same strings.** -/
theorem same_units (g : Units → M) {v v' : Value} (h : Same v v') :
    ((strings v).map fun raw => g (decode raw)).sum = ((strings v').map fun raw => g (decode raw)).sum := by
  induction h with
  | @str a b hab => simp [strings, hab]
  | @arr ws ws' items items' hlength _ ih =>
    have hitems : items.map (fun i => ((strings i.2.1).map fun raw => g (decode raw)).sum) =
        items'.map fun i => ((strings i.2.1).map fun raw => g (decode raw)).sum := map_eq_of_zip hlength ih
    rw [strings, strings, stringsItems_eq, stringsItems_eq, sum_flatMap, sum_flatMap, hitems]
  | @obj ws ws' members members' ordered hperm hlength hkeys _ ih =>
    have hmembers : members.map (fun m => ((m.1.2.1 :: strings m.2.2.1).map fun raw => g (decode raw)).sum) =
        ordered.map fun m => ((m.1.2.1 :: strings m.2.2.1).map fun raw => g (decode raw)).sum := by
      refine map_eq_of_zip hlength fun p hp => ?_
      rw [List.map_cons, List.map_cons, List.sum_cons, List.sum_cons, hkeys p hp, ih p hp]
    rw [strings, strings, stringsMembers_eq, stringsMembers_eq, sum_flatMap, sum_flatMap, hmembers,
      (hperm.map _).sum_eq]
  | _ => rfl

section
variable {w} (hw : ∀ c, isBlank c = true → w c = 0)
include hw

theorem weigh_blank {s : Text} (hs : Blank s) : weigh w s = 0 := by
  have hzero : s.map w = s.map fun _ => 0 := List.map_congr_left fun c hc => hw c (hs c hc)
  rw [weigh, hzero, List.map_const', List.sum_replicate, smul_zero]

theorem outside_arr {ws : Text} {items : List Item} (hv : Valid (.arr ws items)) :
    weigh w (outside (.arr ws items)).text = w '[' + ((items.map fun i => weigh w (outside i.2.1).text).sum +
      (items.length - 1) • w ',' + w ']') := by
  cases hv with
  | arr hws _ hb _ ha =>
    have hitem : ∀ i ∈ items, weigh w (itemText (i.1, mapStrings (fun _ => []) i.2.1, i.2.2)) =
        weigh w (outside i.2.1).text := by
      intro i hi
      rw [weigh_item, weigh_blank hw (hb i hi), weigh_blank hw (ha i hi), zero_add, add_zero]
      rfl
    simp only [outside, mapStrings, Value.text, mapItems_eq, itemsText_eq, weigh_cons, weigh_append, weigh_entries,
      List.map_map, List.length_map, Function.comp_def]
    rw [List.map_congr_left hitem, weigh_blank hw hws, add_zero]
    rfl

theorem outside_obj {ws : Text} {members : List Member} (hv : Valid (.obj ws members)) :
    weigh w (outside (.obj ws members)).text =
      w '\x7b' + ((members.map fun m => w '"' + w '"' + w ':' + weigh w (outside m.2.2.1).text).sum +
        (members.length - 1) • w ',' + w '\x7d') := by
  cases hv with
  | obj hws _ hk hb _ ha =>
    have hmember : ∀ m ∈ members,
        weigh w (memberText ((m.1.1, [], m.1.2.2), m.2.1, mapStrings (fun _ => []) m.2.2.1, m.2.2.2)) =
          w '"' + w '"' + w ':' + weigh w (outside m.2.2.1).text := by
      intro m hm
      rw [weigh_member, weigh_blank hw (hk m hm).1, weigh_blank hw (hk m hm).2.2, weigh_blank hw (hb m hm),
        weigh_blank hw (ha m hm), weigh_nil, zero_add, add_zero, add_zero, add_zero, add_zero]
      rfl
    simp only [outside, mapStrings, Value.text, mapMembers_eq, membersText_eq, weigh_cons, weigh_append, weigh_entries,
      List.map_map, List.length_map, Function.comp_def]
    rw [List.map_congr_left hmember, weigh_blank hw hws, add_zero]
    rfl

/-- **Equal values weigh the same without their strings.** -/
theorem same_outside {v v' : Value} (h : Same v v') (hv : Valid v) (hv' : Valid v') :
    weigh w (outside v).text = weigh w (outside v').text := by
  induction h with
  | @arr ws ws' items items' hlength _ ih =>
    have hitems : items.map (fun i => weigh w (outside i.2.1).text) =
        items'.map fun i => weigh w (outside i.2.1).text := by
      refine map_eq_of_zip hlength fun p hp => ?_
      cases hv with
      | arr _ _ _ hitems _ =>
        cases hv' with
        | arr _ _ _ hitems' _ =>
          exact ih p hp (hitems _ (List.of_mem_zip hp).1) (hitems' _ (List.of_mem_zip hp).2)
    rw [outside_arr hw hv, outside_arr hw hv', hitems, hlength]
  | @obj ws ws' members members' ordered hperm hlength _ _ ih =>
    have hmembers : members.map (fun m => w '"' + w '"' + w ':' + weigh w (outside m.2.2.1).text) =
        ordered.map fun m => w '"' + w '"' + w ':' + weigh w (outside m.2.2.1).text := by
      refine map_eq_of_zip hlength fun p hp => ?_
      cases hv with
      | obj _ _ _ _ hmembers _ =>
        cases hv' with
        | obj _ _ _ _ hmembers' _ =>
          have hp' := List.of_mem_zip hp
          rw [ih p hp (hmembers _ hp'.1) (hmembers' _ (hperm.mem_iff.1 hp'.2))]
    rw [outside_obj hw hv, outside_obj hw hv', hmembers, (hperm.map _).sum_eq, hlength, hperm.length_eq]
  | _ => rfl

end

end

end IconSetup.JsonEqual
