/-
How a text is written in a component of a URI (RFC 3986). Some characters may stand as they are; every character may
also be written as the bytes of its UTF-8 form, each as `%` and two hexadecimal digits.

- `mem_value`: a character that is no hexadecimal digit and no `%` is in the text where it is in the written form.
- `not_mem_raw`: a character that may not stand as it is, and is no such digit and no `%`, is not in the written form.
- `raw_eq`: a written form without `%` is the text itself.
- `length_lt`: with one, it is longer than the text.
-/
import Mathlib.Tactic
import IconSetup.Core.JsonLex

namespace IconSetup.PercentEncoding

open IconSetup.JsonLex (hexValue)

abbrev Chars := List Char

/-- the two digits of a byte -/
def Spells (b : UInt8) (digits : Char × Char) : Prop :=
  hexValue digits.1 = some (b.toNat / 16) ∧ hexValue digits.2 = some (b.toNat % 16)

/-- the bytes that these digits spell, as they are written -/
def percent (digits : List (Char × Char)) : Chars := digits.flatMap fun d => ['%', d.1, d.2]

/-- `raw` is a written form of `value`; `safe` are the characters that may stand as they are -/
inductive Encodes (safe : Char → Bool) : Chars → Chars → Prop where
  | nil : Encodes safe [] []
  | safe {c : Char} {raw value : Chars} : safe c = true → Encodes safe raw value → Encodes safe (c :: raw) (c :: value)
  | escaped {c : Char} {digits : List (Char × Char)} {raw value : Chars} :
      List.Forall₂ Spells (String.utf8EncodeChar c) digits → Encodes safe raw value →
        Encodes safe (percent digits ++ raw) (c :: value)

/-! ## The digits -/

/-- what is written for bytes -/
theorem mem_percent {bytes : List UInt8} {digits : List (Char × Char)} (h : List.Forall₂ Spells bytes digits) :
    ∀ c ∈ percent digits, c = '%' ∨ (hexValue c).isSome := by
  induction h with
  | nil => intro c hc; exact absurd hc List.not_mem_nil
  | cons hd _ ih =>
    intro c hc
    rw [percent, List.flatMap_cons] at hc
    rcases List.mem_append.1 hc with hc | hc
    · rcases List.mem_cons.1 hc with rfl | hc
      · exact Or.inl rfl
      · right
        rcases List.mem_cons.1 hc with rfl | hc
        · rw [hd.1]; rfl
        · rw [List.mem_singleton.1 hc, hd.2]; rfl
    · exact ih c hc

theorem length_percent (digits : List (Char × Char)) : (percent digits).length = 3 * digits.length := by
  induction digits with
  | nil => rfl
  | cons d digits ih =>
    have hrest : (digits.flatMap fun d => ['%', d.1, d.2]).length = 3 * digits.length := ih
    simp only [percent, List.flatMap_cons, List.length_append, List.length_cons, List.length_nil, hrest]
    omega

/-- a character takes one byte or more -/
theorem one_le_digits {c : Char} {digits : List (Char × Char)}
    (h : List.Forall₂ Spells (String.utf8EncodeChar c) digits) : 1 ≤ digits.length := by
  rw [← h.length_eq]
  exact List.length_pos_iff.2 String.utf8EncodeChar_ne_nil

/-! ## Written forms -/

section
variable {safe : Char → Bool} {raw value : Chars}

theorem mem_value (h : Encodes safe raw value) {c : Char} (hpercent : c ≠ '%') (hhex : hexValue c = none)
    (hc : c ∈ raw) : c ∈ value := by
  induction h with
  | nil => exact hc
  | safe _ _ ih =>
    rcases List.mem_cons.1 hc with rfl | hc
    · exact List.mem_cons_self
    · exact List.mem_cons_of_mem _ (ih hc)
  | escaped hd _ ih =>
    rcases List.mem_append.1 hc with hc | hc
    · rcases mem_percent hd c hc with hc | hc
      · exact absurd hc hpercent
      · rw [hhex] at hc; cases hc
    · exact List.mem_cons_of_mem _ (ih hc)

theorem not_mem_raw (h : Encodes safe raw value) {c : Char} (hsafe : safe c = false) (hpercent : c ≠ '%')
    (hhex : hexValue c = none) : c ∉ raw := by
  induction h with
  | nil => exact List.not_mem_nil
  | safe hs _ ih =>
    intro hc
    rcases List.mem_cons.1 hc with rfl | hc
    · rw [hs] at hsafe; cases hsafe
    · exact ih hc
  | escaped hd _ ih =>
    intro hc
    rcases List.mem_append.1 hc with hc | hc
    · rcases mem_percent hd c hc with hc | hc
      · exact hpercent hc
      · rw [hhex] at hc; cases hc
    · exact ih hc

theorem raw_eq (h : Encodes safe raw value) (hpercent : '%' ∉ raw) : raw = value := by
  induction h with
  | nil => rfl
  | safe _ _ ih => rw [ih (List.not_mem_of_not_mem_cons hpercent)]
  | @escaped c digits raw value hd _ ih =>
    cases digits with
    | nil =>
      have := one_le_digits hd
      cases this
    | cons d digits => exact absurd List.mem_cons_self hpercent

theorem length_le (h : Encodes safe raw value) : value.length ≤ raw.length := by
  induction h with
  | nil => exact le_refl 0
  | safe _ _ ih => exact Nat.succ_le_succ ih
  | escaped hd _ ih =>
    have := one_le_digits hd
    simp only [List.length_append, length_percent, List.length_cons]
    omega

theorem length_lt (h : Encodes safe raw value) (hsafe : safe '%' = false) (hpercent : '%' ∈ raw) :
    value.length < raw.length := by
  induction h with
  | nil => exact absurd hpercent List.not_mem_nil
  | safe hs _ ih =>
    rcases List.mem_cons.1 hpercent with rfl | hc
    · rw [hs] at hsafe; cases hsafe
    · exact Nat.succ_lt_succ (ih hc)
  | escaped hd hrest _ =>
    have := one_le_digits hd
    have := length_le hrest
    simp only [List.length_append, length_percent, List.length_cons]
    omega

/-- a text that is its own written form -/
theorem not_mem_of_eq (h : Encodes safe raw value) (hsafe : safe '%' = false) (he : raw = value) : '%' ∉ raw := by
  intro hpercent
  have := length_lt h hsafe hpercent
  rw [he] at this
  exact lt_irrefl _ this

end

end IconSetup.PercentEncoding
