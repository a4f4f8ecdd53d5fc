/-
JSON values, and the canonical form that PostgreSQL's jsonb keeps of them.

A number is kept as its literal, so that integers of any size are themselves. An object is a list of members in the
order given. `jsonb` sorts the members by key length and then by key, keeps the last of equal keys, and does so at
every level; two jsonb values are equal iff their canonical forms are.
- `get_jsonb_obj`: the value of a key in a canonical object is the canonical value of its last member with that key.
- `decEq`: equality is decidable, so that queries which compare rows can be run.
-/
import Mathlib

namespace IconSetup

inductive Json where
  | null
  | bool (b : Bool)
  | num (lit : String)
  | str (s : String)
  | arr (xs : List Json)
  | obj (members : List (String × Json))
deriving Repr

namespace Json

/-! ## Equality -/

mutual

def decEq : (a b : Json) → Decidable (a = b)
  | .null, .null => isTrue rfl
  | .bool a, .bool b => decidable_of_iff (a = b) (by simp)
  | .num a, .num b => decidable_of_iff (a = b) (by simp)
  | .str a, .str b => decidable_of_iff (a = b) (by simp)
  | .arr xs, .arr ys => @decidable_of_iff _ (xs = ys) (by simp) (decEqList xs ys)
  | .obj fs, .obj gs => @decidable_of_iff _ (fs = gs) (by simp) (decEqMembers fs gs)
  | .null, .bool _ | .null, .num _ | .null, .str _ | .null, .arr _ | .null, .obj _ => isFalse (by simp)
  | .bool _, .null | .bool _, .num _ | .bool _, .str _ | .bool _, .arr _ | .bool _, .obj _ => isFalse (by simp)
  | .num _, .null | .num _, .bool _ | .num _, .str _ | .num _, .arr _ | .num _, .obj _ => isFalse (by simp)
  | .str _, .null | .str _, .bool _ | .str _, .num _ | .str _, .arr _ | .str _, .obj _ => isFalse (by simp)
  | .arr _, .null | .arr _, .bool _ | .arr _, .num _ | .arr _, .str _ | .arr _, .obj _ => isFalse (by simp)
  | .obj _, .null | .obj _, .bool _ | .obj _, .num _ | .obj _, .str _ | .obj _, .arr _ => isFalse (by simp)

def decEqList : (xs ys : List Json) → Decidable (xs = ys)
  | [], [] => isTrue rfl
  | [], _ :: _ => isFalse (by simp)
  | _ :: _, [] => isFalse (by simp)
  | x :: xs, y :: ys =>
    have := decEq x y
    have := decEqList xs ys
    decidable_of_iff (x = y ∧ xs = ys) (by simp)

def decEqMembers : (fs gs : List (String × Json)) → Decidable (fs = gs)
  | [], [] => isTrue rfl
  | [], _ :: _ => isFalse (by simp)
  | _ :: _, [] => isFalse (by simp)
  | (k, x) :: fs, (k', y) :: gs =>
    have := decEq x y
    have := decEqMembers fs gs
    decidable_of_iff ((k = k' ∧ x = y) ∧ fs = gs) (by simp)

end

instance : DecidableEq Json := decEq

/-! ## Objects -/

/-- the value of a key; `none` when the key is missing or the value is no object -/
def get : Json → String → Option Json
  | .obj members, k => members.lookup k
  | _, _ => none

/-- jsonb's order of keys: shorter first, then by bytes -/
def keyLt (a b : String) : Bool := decide (a.utf8ByteSize < b.utf8ByteSize ∨ a.utf8ByteSize = b.utf8ByteSize ∧ a < b)

/-- put a member in its place, over an earlier one with the same key -/
def insertMember (k : String) (v : Json) : List (String × Json) → List (String × Json)
  | [] => [(k, v)]
  | (k', v') :: ms =>
    if k = k' then (k, v) :: ms
    else if keyLt k k' then (k, v) :: (k', v') :: ms
    else (k', v') :: insertMember k v ms

mutual

def jsonb : Json → Json
  | .arr xs => .arr (jsonbList xs)
  | .obj members => .obj (jsonbMembers [] members)
  | .null => .null
  | .bool b => .bool b
  | .num lit => .num lit
  | .str s => .str s

def jsonbList : List Json → List Json
  | [] => []
  | x :: xs => jsonb x :: jsonbList xs

def jsonbMembers (acc : List (String × Json)) : List (String × Json) → List (String × Json)
  | [] => acc
  | (k, v) :: ms => jsonbMembers (insertMember k (jsonb v) acc) ms

end

theorem jsonbList_eq (xs : List Json) : jsonbList xs = xs.map jsonb := by
  induction xs with
  | nil => rfl
  | cons x xs ih => rw [jsonbList, ih, List.map_cons]

theorem lookup_cons_eq (k k' : String) (v : Json) (ms : List (String × Json)) :
    ((k, v) :: ms).lookup k' = if k' = k then some v else ms.lookup k' := by
  by_cases h : k' = k
  · simp [h]
  · have : (k' == k) = false := by simpa using h
    simp [List.lookup_cons, h, this]

theorem lookup_insertMember (k k' : String) (v : Json) (ms : List (String × Json)) :
    (insertMember k v ms).lookup k' = if k' = k then some v else ms.lookup k' := by
  induction ms with
  | nil => rw [insertMember, lookup_cons_eq]
  | cons m ms ih =>
    obtain ⟨k1, v1⟩ := m
    simp only [insertMember]
    split_ifs with h1 h2 h3 h4
    · rw [lookup_cons_eq, if_pos h2]
    · rw [lookup_cons_eq, lookup_cons_eq, if_neg h2, ← h1, if_neg h2]
    · rw [lookup_cons_eq, if_pos h4]
    · rw [lookup_cons_eq, if_neg h4]
    · rename_i h; rw [lookup_cons_eq, ih, if_pos h, if_neg (h ▸ h1)]
    · rename_i h; rw [lookup_cons_eq, lookup_cons_eq, ih, if_neg h]

theorem lookup_jsonbMembers (k : String) (acc ms : List (String × Json)) :
    (jsonbMembers acc ms).lookup k = ((ms.reverse.lookup k).map jsonb).or (acc.lookup k) := by
  induction ms generalizing acc with
  | nil => simp [jsonbMembers]
  | cons m ms ih =>
    obtain ⟨k1, v1⟩ := m
    rw [jsonbMembers, ih, lookup_insertMember, List.reverse_cons, List.lookup_append, lookup_cons_eq]
    cases hr : ms.reverse.lookup k with
    | some v => simp
    | none => by_cases h : k = k1 <;> simp [h]

theorem get_jsonb_obj (k : String) (ms : List (String × Json)) :
    (jsonb (.obj ms)).get k = (ms.reverse.lookup k).map jsonb := by
  simp [jsonb, get, lookup_jsonbMembers]

/-! ## SQL values as JSON -/

def ofText : Option String → Json
  | none => .null
  | some s => .str s

def ofInt : Option ℤ → Json
  | none => .null
  | some i => .num (toString i)

/-- an SQL array; NULL gives null -/
def ofArray : Option (List Json) → Json
  | none => .null
  | some xs => .arr xs

/-- `json_build_object`: the members as given -/
def jsonBuildObject (members : List (String × Json)) : Json := .obj members

/-- `jsonb_build_object` -/
def jsonbBuildObject (members : List (String × Json)) : Json := jsonb (.obj members)

@[simp] theorem jsonb_str (s : String) : jsonb (.str s) = .str s := rfl

@[simp] theorem jsonb_ofArray (xs : Option (List Json)) : jsonb (ofArray xs) = ofArray (xs.map (·.map jsonb)) := by
  cases xs with
  | none => rfl
  | some xs => simp [ofArray, jsonb, jsonbList_eq]

/-- the text of an integer determines it -/
theorem toString_int_inj {i j : ℤ} : toString i = toString j ↔ i = j :=
  ⟨fun h => Int.repr_injective h, fun h => h ▸ rfl⟩

end Json

end IconSetup
