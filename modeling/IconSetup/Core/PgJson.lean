/-
PostgreSQL's functions on the type json, which keeps a value as its text.

`json_array_elements` gives the elements of an array as they stand in its text, and raises an error on any other text.
`->>` reads the text of a value again and turns every string in it, keys included, into text; that is an error when one
of them has no text: an unpaired surrogate, or the character NUL, which only an escape can write. The value of the last
member with the key is given: a string by its characters, null as NULL, and anything else by its JSON text. A value that
is no object has no members.

- `elements_iff`: the elements of a text, by the grammar.
- `arrowText_iff`: `->>` succeeds iff every string of the value can be held as text.
-/
import Mathlib.Tactic
import IconSetup.Core.JsonLex
import IconSetup.Core.JsonText

namespace IconSetup.PgJson

open IconSetup.JsonLex IconSetup.JsonText

/-! ## Strings -/

/-- a string that stands for a text without NUL -/
def Holdable (raw : Text) : Prop := ∃ t, unescape raw = some t ∧ '\x00' ∉ t

instance (raw : Text) : Decidable (Holdable raw) :=
  match h : unescape raw with
  | none => isFalse fun ⟨t, ht, _⟩ => by rw [h] at ht; cases ht
  | some t => decidable_of_iff ('\x00' ∉ t) (by simp [Holdable, h])

/-- the text of a string that can be held -/
def heldText (raw : Text) : Text := (unescape raw).getD []

/-! ## Elements and members -/

/-- `json_array_elements(s::json)` -/
def elements (s : String) : Option (List Value) :=
  match parse s.toList with
  | some (.arr _ items) => some (items.map fun i => i.2.1)
  | _ => none

/-- a value as SQL text -/
def sqlText : Value → Option String
  | .null => none
  | .str raw => some (String.ofList (heldText raw))
  | v => some (String.ofList v.text)

/-- `v ->> key`, where all strings can be held -/
def arrow (v : Value) (key : String) : Option String := (memberValue key.toList v).bind sqlText

/-- `v ->> key` -/
def arrowText (v : Value) (key : String) : Option (Option String) :=
  if ∀ raw ∈ strings v, Holdable raw then some (arrow v key) else none

/-- the text is an array with these elements, between white space -/
def IsArray (s : String) (values : List Value) : Prop :=
  ∃ before ws items after, Blank before ∧ Blank after ∧ Valid (.arr ws items) ∧
    s.toList = before ++ (Value.arr ws items).text ++ after ∧ values = items.map fun i => i.2.1

theorem elements_iff {s : String} {values : List Value} : elements s = some values ↔ IsArray s values := by
  unfold elements
  constructor
  · intro h
    split at h
    · rename_i ws items hparse
      cases h
      obtain ⟨hv, before, after, hb, ha, hs⟩ := parse_iff.1 hparse
      exact ⟨before, ws, items, after, hb, ha, hv, hs, rfl⟩
    · cases h
  · rintro ⟨before, ws, items, after, hb, ha, hv, hs, rfl⟩
    rw [parse_iff.2 ⟨hv, before, after, hb, ha, hs⟩]

theorem arrowText_iff {v : Value} {key : String} {r : Option String} :
    arrowText v key = some r ↔ (∀ raw ∈ strings v, Holdable raw) ∧ r = arrow v key := by
  unfold arrowText
  split_ifs with h
  · rw [Option.some.injEq, eq_comm]
    exact (and_iff_right h).symm
  · exact iff_of_false (fun he => by cases he) fun he => h he.1

example : (elements "[\x7b\"identifier\": \"a\\n\", \"city\": [1, 2]\x7d, 5]").map
    (·.map fun v => [arrow v "identifier", arrow v "city", arrow v "phu"]) =
      some [[some "a\n", some "[1, 2]", none], [none, none, none]] := by decide +kernel

end IconSetup.PgJson
