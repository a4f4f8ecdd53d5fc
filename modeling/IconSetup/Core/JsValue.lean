/-
JavaScript values as JSON.parse makes them and JSON.stringify writes them.

An object is the list of its own properties in their order: array indexes first, ascending, then the other keys in the
order of their creation. How a literal is read as a number and a number written is left to a `NumberFormat`.

- `lookup_set`, `lookup_setAll`, `lookup_setAll_last`: assigning to properties.
- `set_append`: a new key that no key has to come after is the last.
- `parsed_ofValue`: what JSON.parse makes has no undefined, and its objects are in order.
- `parse_stringify`: what is written of such a value is read as the same value, save that null stands for a number that
  JSON cannot write.
-/
import Mathlib.Tactic
import IconSetup.Core.JsString
import IconSetup.Core.JsonText

namespace IconSetup.JsValue

open IconSetup.JsonLex IconSetup.JsonText IconSetup.JsString

/-! ## Values -/

inductive Js (Number : Type) where
  | undefined
  | null
  | bool (b : Bool)
  | num (n : Number)
  | str (s : Units)
  | arr (items : List (Js Number))
  | obj (props : List (Units × Js Number))

abbrev Props (Number : Type) := List (Units × Js Number)

/-- doubles without NaN, the two zeros as one number; infinite numbers are not written -/
structure NumberFormat where
  Number : Type
  read : Text → Number
  write : Number → Option Text
  write_number : ∀ {n lit}, write n = some lit → isNumber lit = true
  read_write : ∀ {n lit}, write n = some lit → read lit = n

/-! ## Properties -/

section
variable {Number : Type}

def digit (u : UInt16) : Option ℕ := if 48 ≤ u.toNat ∧ u.toNat ≤ 57 then some (u.toNat - 48) else none

def notIndex : ℕ := 2 ^ 32 - 1

/-- the array index that a key is, in its shortest spelling; all other keys have the same rank behind them -/
def rank (key : Units) : ℕ :=
  match key.mapM digit with
  | some (d :: ds) =>
    if d = 0 ∧ ds ≠ [] then notIndex else min notIndex ((d :: ds).foldl (fun n digit => 10 * n + digit) 0)
  | _ => notIndex

/-- a new property, behind all keys that come before it -/
def insert (key : Units) (value : Js Number) : Props Number → Props Number
  | [] => [(key, value)]
  | p :: props => if rank key < rank p.1 then (key, value) :: p :: props else p :: insert key value props

/-- `object[key] = value` -/
def set (props : Props Number) (key : Units) (value : Js Number) : Props Number :=
  if key ∈ props.map Prod.fst then props.map fun p => if p.1 = key then (key, value) else p else insert key value props

def setAll (props members : Props Number) : Props Number := members.foldl (fun props p => set props p.1 p.2) props

/-- the order of own keys -/
def Ordered (props : Props Number) : Prop :=
  (props.map Prod.fst).Nodup ∧ props.Pairwise fun p q => rank p.1 ≤ rank q.1

/-- `value[key]`, for a key that is no index and that no built-in prototype has; `none` where it throws -/
def access (value : Js Number) (key : Units) : Option (Js Number) :=
  match value with
  | .undefined | .null => none
  | .obj props => some ((props.lookup key).getD .undefined)
  | _ => some .undefined

/-- the keys of an object in a `for (key in value)`, with their values -/
def enumerate : Js Number → Props Number
  | .obj props => props
  | .arr items => items.mapIdx fun k v => (ofText (toString k).toList, v)
  | .str s => s.mapIdx fun k u => (ofText (toString k).toList, .str [u])
  | _ => []

theorem insert_keys (key : Units) (value : Js Number) (props : Props Number) :
    ((insert key value props).map Prod.fst).Perm (key :: props.map Prod.fst) := by
  induction props with
  | nil => exact List.Perm.refl _
  | cons p props ih =>
    unfold insert
    split_ifs
    · exact List.Perm.refl _
    · exact (ih.cons p.1).trans (List.Perm.swap key p.1 _)

theorem mem_insert {key : Units} {value : Js Number} {props : Props Number} {p : Units × Js Number} :
    p ∈ insert key value props ↔ p = (key, value) ∨ p ∈ props := by
  induction props with
  | nil => simp [insert]
  | cons q props ih =>
    unfold insert
    split_ifs
    · exact List.mem_cons
    · rw [List.mem_cons, ih, List.mem_cons, or_left_comm]

theorem lookup_cons_if (p : Units × Js Number) (props : Props Number) (k : Units) :
    (p :: props).lookup k = if k = p.1 then some p.2 else props.lookup k := by
  rw [List.lookup_cons]
  by_cases hk : k = p.1
  · rw [if_pos hk, beq_iff_eq.2 hk]
  · rw [if_neg hk, beq_false_of_ne hk]

theorem lookup_insert {key : Units} {value : Js Number} {props : Props Number} (h : key ∉ props.map Prod.fst)
    (k : Units) : (insert key value props).lookup k = if k = key then some value else props.lookup k := by
  induction props with
  | nil => exact lookup_cons_if (key, value) [] k
  | cons p props ih =>
    have hp : key ≠ p.1 := fun he => h (he ▸ List.mem_cons_self)
    have hprops : key ∉ props.map Prod.fst := fun hk => h (List.mem_cons_of_mem p.1 hk)
    unfold insert
    by_cases hrank : rank key < rank p.1
    · rw [if_pos hrank, lookup_cons_if]
    · rw [if_neg hrank, lookup_cons_if, ih hprops, lookup_cons_if]
      by_cases hk : k = key
      · subst hk
        rw [if_pos rfl, if_pos rfl, if_neg hp]
      · rw [if_neg hk, if_neg hk]

theorem lookup_replace {key : Units} {value : Js Number} {props : Props Number} (k : Units) :
    (props.map fun p => if p.1 = key then (key, value) else p).lookup k =
      if k = key ∧ key ∈ props.map Prod.fst then some value else props.lookup k := by
  induction props with
  | nil => simp
  | cons p props ih =>
    rw [List.map_cons, lookup_cons_if, ih, lookup_cons_if]
    by_cases hk : k = key
    · subst hk
      by_cases hp : p.1 = k
      · simp [hp]
      · have hmem : k = k ∧ k ∈ (p :: props).map Prod.fst ↔ k = k ∧ k ∈ props.map Prod.fst := by
          simp [Ne.symm hp]
        rw [if_neg hp, if_neg (Ne.symm hp), if_congr hmem rfl rfl, if_neg (Ne.symm hp)]
    · by_cases hp : p.1 = key
      · simp [hp, hk]
      · simp [hp, hk]

/-- **A property is what was assigned to it last.** -/
@[simp] theorem lookup_set (props : Props Number) (key : Units) (value : Js Number) (k : Units) :
    (set props key value).lookup k = if k = key then some value else props.lookup k := by
  unfold set
  split_ifs with h hk hk
  · rw [lookup_replace, if_pos ⟨hk, h⟩]
  · rw [lookup_replace, if_neg fun hand => hk hand.1]
  · rw [lookup_insert h, if_pos hk]
  · rw [lookup_insert h, if_neg hk]

theorem mem_set {props : Props Number} {key : Units} {value : Js Number} {p : Units × Js Number}
    (h : p ∈ set props key value) : p = (key, value) ∨ p ∈ props := by
  unfold set at h
  split_ifs at h
  · obtain ⟨q, hq, he⟩ := List.mem_map.1 h
    split_ifs at he
    · exact Or.inl he.symm
    · exact Or.inr (he ▸ hq)
  · exact mem_insert.1 h

theorem insert_sorted {key : Units} {value : Js Number} {props : Props Number}
    (h : props.Pairwise fun p q => rank p.1 ≤ rank q.1) :
    (insert key value props).Pairwise fun p q => rank p.1 ≤ rank q.1 := by
  induction props with
  | nil => exact List.pairwise_singleton _ _
  | cons p props ih =>
    obtain ⟨hfirst, hrest⟩ := List.pairwise_cons.1 h
    unfold insert
    split_ifs with hrank
    · refine List.pairwise_cons.2 ⟨fun q hq => ?_, h⟩
      rcases List.mem_cons.1 hq with rfl | hq
      · exact hrank.le
      · exact hrank.le.trans (hfirst q hq)
    · refine List.pairwise_cons.2 ⟨fun q hq => ?_, ih hrest⟩
      rcases mem_insert.1 hq with rfl | hq
      · exact Nat.le_of_not_lt hrank
      · exact hfirst q hq

theorem set_ordered {props : Props Number} (h : Ordered props) (key : Units) (value : Js Number) :
    Ordered (set props key value) := by
  unfold set
  split_ifs with hmem
  · have hkey : ∀ p : Units × Js Number, (if p.1 = key then (key, value) else p).1 = p.1 := by
      intro p
      split_ifs with hp
      · exact hp.symm
      · rfl
    refine ⟨?_, ?_⟩
    · rw [List.map_map]
      have hfst : (Prod.fst ∘ fun p : Units × Js Number => if p.1 = key then (key, value) else p) = Prod.fst :=
        funext hkey
      rw [hfst]
      exact h.1
    · refine List.pairwise_map.2 (h.2.imp fun hle => ?_)
      rw [hkey, hkey]
      exact hle
  · exact ⟨(insert_keys key value props).nodup_iff.2 (List.nodup_cons.2 ⟨hmem, h.1⟩), insert_sorted h.2⟩

theorem ordered_nil : Ordered ([] : Props Number) := ⟨List.nodup_nil, List.Pairwise.nil⟩

theorem setAll_ordered {props : Props Number} (h : Ordered props) (members : Props Number) :
    Ordered (setAll props members) := by
  induction members generalizing props with
  | nil => exact h
  | cons p members ih => exact ih (set_ordered h p.1 p.2)

theorem mem_setAll {props members : Props Number} {p : Units × Js Number} (h : p ∈ setAll props members) :
    p ∈ props ∨ p ∈ members := by
  induction members generalizing props with
  | nil => exact Or.inl h
  | cons q members ih =>
    rcases ih h with hset | hmem
    · rcases mem_set hset with rfl | hprops
      · exact Or.inr List.mem_cons_self
      · exact Or.inl hprops
    · exact Or.inr (List.mem_cons_of_mem q hmem)

theorem lookup_eq_none {props : Props Number} {k : Units} (h : k ∉ props.map Prod.fst) : props.lookup k = none := by
  rw [List.lookup_eq_none_iff]
  intro p hp
  rw [bne_iff_ne]
  intro he
  exact h (he ▸ List.mem_map_of_mem hp)

/-- **Assigning many properties keeps each of them**, and all others that were there. -/
theorem lookup_setAll {props members : Props Number} (h : (members.map Prod.fst).Nodup) (k : Units) :
    (setAll props members).lookup k = (members.lookup k).or (props.lookup k) := by
  induction members generalizing props with
  | nil => rfl
  | cons p members ih =>
    obtain ⟨hp, hmembers⟩ := List.nodup_cons.1 h
    have hcons : setAll props (p :: members) = setAll (set props p.1 p.2) members := rfl
    rw [hcons, ih hmembers, lookup_set, lookup_cons_if]
    by_cases hk : k = p.1
    · rw [if_pos hk, if_pos hk, hk, lookup_eq_none hp, Option.none_or, Option.some_or]
    · rw [if_neg hk, if_neg hk]

/-- of properties with one key the last counts -/
theorem lookup_setAll_last (props members : Props Number) (k : Units) :
    (setAll props members).lookup k = (members.reverse.lookup k).or (props.lookup k) := by
  induction members generalizing props with
  | nil => rfl
  | cons p members ih =>
    have hcons : setAll props (p :: members) = setAll (set props p.1 p.2) members := rfl
    rw [hcons, ih, lookup_set, List.reverse_cons, List.lookup_append, Option.or_assoc, lookup_cons_if]
    congr 1
    split_ifs <;> rfl

/-- the order of the properties does not matter -/
theorem lookup_perm {props props' : Props Number} (h : props.Perm props') (hnodup : (props'.map Prod.fst).Nodup)
    (k : Units) : props.lookup k = props'.lookup k := by
  induction h with
  | nil => rfl
  | cons p _ ih =>
    rw [List.map_cons, List.nodup_cons] at hnodup
    rw [lookup_cons_if, lookup_cons_if, ih hnodup.2]
  | swap p q props =>
    rw [lookup_cons_if, lookup_cons_if, lookup_cons_if, lookup_cons_if]
    split_ifs with hq hp
    · rw [List.map_cons, List.map_cons, ← hp, ← hq] at hnodup
      exact absurd List.mem_cons_self (List.nodup_cons.1 hnodup).1
    · rfl
    · rfl
    · rfl
  | trans h₁ h₂ ih₁ ih₂ => rw [ih₁ ((h₂.map Prod.fst).nodup_iff.2 hnodup), ih₂ hnodup]

theorem mem_of_lookup {props : Props Number} {k : Units} {v : Js Number} (h : props.lookup k = some v) :
    (k, v) ∈ props := by
  induction props with
  | nil => cases h
  | cons p props ih =>
    rw [lookup_cons_if] at h
    split_ifs at h with hk
    · cases h
      rw [hk]
      exact List.mem_cons_self
    · exact List.mem_cons_of_mem p (ih h)

/-- a new key that no key has to come after is the last -/
theorem set_append {props : Props Number} {key : Units} (value : Js Number) (hkey : key ∉ props.map Prod.fst)
    (hrank : ∀ p ∈ props, rank p.1 ≤ rank key) : set props key value = props ++ [(key, value)] := by
  rw [set, if_neg hkey]
  clear hkey
  induction props with
  | nil => rfl
  | cons p props ih =>
    rw [insert, if_neg (hrank p List.mem_cons_self).not_gt, ih fun q hq => hrank q (List.mem_cons_of_mem p hq),
      List.cons_append]

/-- properties in order are assigned in their order -/
theorem setAll_eq {props members : Props Number} (h : Ordered (props ++ members)) :
    setAll props members = props ++ members := by
  induction members generalizing props with
  | nil => exact (List.append_nil props).symm
  | cons p members ih =>
    have hkey : p.1 ∉ props.map Prod.fst := by
      have hnodup := h.1
      rw [List.map_append, List.map_cons] at hnodup
      intro hp
      exact (List.nodup_append.1 hnodup).2.2 p.1 hp p.1 List.mem_cons_self rfl
    have hrank : ∀ q ∈ props, rank q.1 ≤ rank p.1 := fun q hq =>
      (List.pairwise_append.1 h.2).2.2 q hq p List.mem_cons_self
    have happend : props ++ p :: members = props ++ [p] ++ members := by simp
    rw [happend] at h ⊢
    calc setAll props (p :: members)
      _ = setAll (props ++ [p]) members := by rw [setAll, List.foldl_cons, set_append p.2 hkey hrank]; rfl
      _ = props ++ [p] ++ members := ih h

end

/-! ## JSON.parse -/

section
variable (fmt : NumberFormat)

mutual

def ofValue : Value → Js fmt.Number
  | .null => .null
  | .true => .bool true
  | .false => .bool false
  | .num lit => .num (fmt.read lit)
  | .str raw => .str (decode raw)
  | .arr _ items => .arr (ofItems items)
  | .obj _ members => .obj (setAll [] (ofMembers members))

def ofItems : List (Text × Value × Text) → List (Js fmt.Number)
  | [] => []
  | (_, v, _) :: items => ofValue v :: ofItems items

def ofMembers : List ((Text × Text × Text) × Text × Value × Text) → Props fmt.Number
  | [] => []
  | ((_, key, _), _, v, _) :: members => (decode key, ofValue v) :: ofMembers members

end

/-- `none` where it throws -/
def jsonParse (s : Text) : Option (Js fmt.Number) := (parse s).map (ofValue fmt)

/-! ## JSON.stringify -/

mutual

def toValue : Js fmt.Number → Value
  | .undefined => .null
  | .null => .null
  | .bool b => if b then .true else .false
  | .num n =>
    match fmt.write n with
    | some lit => .num lit
    | none => .null
  | .str s => .str (quote s)
  | .arr items => .arr [] (toItems items)
  | .obj props => .obj [] (toMembers props)

def toItems : List (Js fmt.Number) → List (Text × Value × Text)
  | [] => []
  | v :: items => ([], toValue v, []) :: toItems items

/-- a property that is undefined is not written -/
def toMembers : List (Units × Js fmt.Number) → List ((Text × Text × Text) × Text × Value × Text)
  | [] => []
  | (_, .undefined) :: props => toMembers props
  | (key, v) :: props => (([], quote key, []), [], toValue v, []) :: toMembers props

end

def stringify (v : Js fmt.Number) : Text := (toValue fmt v).text

/-! ## Values that JSON.parse makes -/

/-- no undefined, and objects in order -/
inductive Parsed {Number : Type} : Js Number → Prop where
  | null : Parsed .null
  | bool (b : Bool) : Parsed (.bool b)
  | num (n : Number) : Parsed (.num n)
  | str (s : Units) : Parsed (.str s)
  | arr {items : List (Js Number)} : (∀ v ∈ items, Parsed v) → Parsed (.arr items)
  | obj {props : Props Number} : Ordered props → (∀ p ∈ props, Parsed p.2) → Parsed (.obj props)

mutual

/-- a value with null for each number that JSON cannot write -/
def written : Js fmt.Number → Js fmt.Number
  | .undefined => .undefined
  | .null => .null
  | .bool b => .bool b
  | .num n => if (fmt.write n).isSome then .num n else .null
  | .str s => .str s
  | .arr items => .arr (writtenItems items)
  | .obj props => .obj (writtenProps props)

def writtenItems : List (Js fmt.Number) → List (Js fmt.Number)
  | [] => []
  | v :: items => written v :: writtenItems items

def writtenProps : List (Units × Js fmt.Number) → Props fmt.Number
  | [] => []
  | (key, v) :: props => (key, written v) :: writtenProps props

end

variable {fmt}

theorem ofItems_eq (items : List Item) : ofItems fmt items = items.map fun i => ofValue fmt i.2.1 := by
  induction items with
  | nil => simp [ofItems]
  | cons i items ih => rw [ofItems, ih, List.map_cons]

theorem ofMembers_eq (members : List Member) :
    ofMembers fmt members = members.map fun m => (decode m.1.2.1, ofValue fmt m.2.2.1) := by
  induction members with
  | nil => simp [ofMembers]
  | cons m members ih => rw [ofMembers, ih, List.map_cons]

theorem toItems_eq (items : List (Js fmt.Number)) : toItems fmt items = items.map fun v => ([], toValue fmt v, []) := by
  induction items with
  | nil => simp [toItems]
  | cons v items ih => rw [toItems, ih, List.map_cons]

theorem parsed_defined {Number : Type} {v : Js Number} (h : Parsed v) : v ≠ .undefined := by
  rintro rfl
  cases h

theorem toMembers_eq {props : Props fmt.Number} (h : ∀ p ∈ props, p.2 ≠ .undefined) :
    toMembers fmt props = props.map fun p => (([], quote p.1, []), [], toValue fmt p.2, []) := by
  induction props with
  | nil => simp [toMembers]
  | cons p props ih =>
    obtain ⟨key, v⟩ := p
    have hv : v ≠ .undefined := h (key, v) List.mem_cons_self
    rw [toMembers, ih fun q hq => h q (List.mem_cons_of_mem _ hq), List.map_cons]
    exact fun he => hv he

theorem writtenItems_eq (items : List (Js fmt.Number)) : writtenItems fmt items = items.map (written fmt) := by
  induction items with
  | nil => simp [writtenItems]
  | cons v items ih => rw [writtenItems, ih, List.map_cons]

theorem writtenProps_eq (props : Props fmt.Number) :
    writtenProps fmt props = props.map fun p => (p.1, written fmt p.2) := by
  induction props with
  | nil => simp [writtenProps]
  | cons p props ih => rw [writtenProps, ih, List.map_cons]

theorem lookup_writtenProps (props : Props fmt.Number) (k : Units) :
    (writtenProps fmt props).lookup k = (props.lookup k).map (written fmt) := by
  rw [writtenProps_eq]
  induction props with
  | nil => rfl
  | cons p props ih =>
    rw [List.map_cons, lookup_cons_if, lookup_cons_if, ih]
    split_ifs <;> rfl

theorem parsed_ofValue {t : Value} (h : Valid t) : Parsed (ofValue fmt t) := by
  induction h with
  | null => exact .null
  | true => exact .bool true
  | false => exact .bool false
  | num _ => exact .num _
  | str _ => exact .str _
  | arr _ _ _ _ _ ih =>
    rw [ofValue, ofItems_eq]
    refine .arr fun v hv => ?_
    obtain ⟨i, hi, rfl⟩ := List.mem_map.1 hv
    exact ih i hi
  | obj _ _ _ _ _ _ ih =>
    rw [ofValue, ofMembers_eq]
    refine .obj (setAll_ordered ordered_nil _) fun p hp => ?_
    obtain ⟨m, hm, rfl⟩ := List.mem_map.1 ((mem_setAll hp).resolve_left List.not_mem_nil)
    exact ih m hm

/-- **What JSON.parse makes has no undefined, and its objects are in order.** -/
theorem jsonParse_parsed {s : Text} {v : Js fmt.Number} (h : jsonParse fmt s = some v) : Parsed v := by
  obtain ⟨t, ht, rfl⟩ := Option.map_eq_some_iff.1 h
  exact parsed_ofValue (parse_iff.1 ht).1

/-! ## Round trip -/

theorem toValue_valid {v : Js fmt.Number} (h : Parsed v) : Valid (toValue fmt v) := by
  induction h with
  | null => exact .null
  | bool b =>
    cases b
    · exact .false
    · exact .true
  | num n =>
    rw [toValue]
    split
    · rename_i lit hlit
      exact .num (fmt.write_number hlit)
    · exact .null
  | str s => exact .str (quote_legal s)
  | arr _ ih =>
    rw [toValue, toItems_eq]
    refine valid_arr nil_blank (fun _ => rfl) fun i hi => ?_
    obtain ⟨v, hv, rfl⟩ := List.mem_map.1 hi
    exact ⟨nil_blank, ih v hv, nil_blank⟩
  | obj _ hparsed ih =>
    rw [toValue, toMembers_eq fun p hp => parsed_defined (hparsed p hp)]
    refine valid_obj nil_blank (fun _ => rfl) fun m hm => ?_
    obtain ⟨p, hp, rfl⟩ := List.mem_map.1 hm
    exact ⟨⟨nil_blank, quote_legal p.1, nil_blank⟩, nil_blank, ih p hp, nil_blank⟩

theorem ofValue_toValue {v : Js fmt.Number} (h : Parsed v) : ofValue fmt (toValue fmt v) = written fmt v := by
  induction h with
  | null => simp [toValue, ofValue, written]
  | bool b => cases b <;> simp [toValue, ofValue, written]
  | num n =>
    rw [toValue, written]
    split
    · rename_i lit hlit
      rw [ofValue, fmt.read_write hlit, hlit, Option.isSome_some, if_pos rfl]
    · rename_i hnone
      rw [ofValue, hnone, Option.isSome_none, if_neg Bool.false_ne_true]
  | str s => rw [toValue, ofValue, written, decode_quote]
  | arr _ ih =>
    rw [toValue, ofValue, written, toItems_eq, ofItems_eq, writtenItems_eq, List.map_map]
    exact congrArg Js.arr (List.map_congr_left ih)
  | @obj props hordered hparsed ih =>
    have hmembers : ofMembers fmt (toMembers fmt props) = props.map fun p => (p.1, written fmt p.2) := by
      rw [toMembers_eq fun p hp => parsed_defined (hparsed p hp), ofMembers_eq, List.map_map]
      refine List.map_congr_left fun p hp => ?_
      simp only [Function.comp_apply, decode_quote, ih p hp]
    have hkeys : Ordered (props.map fun p => (p.1, written fmt p.2)) := by
      refine ⟨?_, List.pairwise_map.2 hordered.2⟩
      rw [List.map_map]
      exact hordered.1
    rw [toValue, ofValue, written, hmembers, writtenProps_eq, setAll_eq hkeys, List.nil_append]

theorem jsonParse_text {t : Value} (h : Valid t) : jsonParse fmt t.text = some (ofValue fmt t) := by
  have hparse : parse t.text = some t := by
    refine parse_iff.2 ⟨h, [], [], ?_, ?_, by simp⟩
    · exact fun _ hc => absurd hc List.not_mem_nil
    · exact fun _ hc => absurd hc List.not_mem_nil
  rw [jsonParse, hparse, Option.map_some]

/-- **What JSON.stringify writes of such a value is read as that value**, with null for a number that JSON cannot
write. -/
theorem parse_stringify {v : Js fmt.Number} (h : Parsed v) :
    jsonParse fmt (stringify fmt v) = some (written fmt v) := by
  rw [stringify, jsonParse_text (toValue_valid h), ofValue_toValue h]

end

end IconSetup.JsValue
