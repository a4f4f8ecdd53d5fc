/-
Strings as JavaScript has them, lists of UTF-16 code units in which a surrogate may stand without its other half; and
the way they are read from JSON text and written to it.

- `decode`: the units that a raw JSON string stands for.
- `quote`: how JSON.stringify writes units, a surrogate without its other half as an escape.
- `quote_legal`, `decode_quote`: what it writes is a legal string, and it stands for the same units.
- `decode_length_lt`: a string with an escape stands for fewer units than it is written with.
- `ofText_injective`: different texts have different units.
-/
import Mathlib.Tactic
import IconSetup.Core.JsonLex

namespace IconSetup.JsString

open IconSetup.JsonLex

abbrev Units := List UInt16

/-! ## Reading -/

/-- the units of a character: one, or a pair of surrogates -/
def unitsOf (c : Char) : Units :=
  if c.toNat < 0x10000 then [UInt16.ofNat c.toNat]
  else [UInt16.ofNat (0xD800 + (c.toNat - 0x10000) / 0x400), UInt16.ofNat (0xDC00 + (c.toNat - 0x10000) % 0x400)]

def ofText (s : Text) : Units := s.flatMap unitsOf

def hexUnit (a b c d : Char) : UInt16 :=
  UInt16.ofNat ([a, b, c, d].foldl (fun n digit => 16 * n + (hexValue digit).getD 0) 0)

def decode : Text → Units
  | '\\' :: 'u' :: a :: b :: c :: d :: raw => hexUnit a b c d :: decode raw
  | '\\' :: c :: raw => unitsOf ((simpleEscape c).getD c) ++ decode raw
  | c :: raw => unitsOf c ++ decode raw
  | [] => []

/-! ## Writing -/

def hexDigits (u : UInt16) : Text :=
  [Nat.digitChar (u.toNat / 4096), Nat.digitChar (u.toNat / 256 % 16), Nat.digitChar (u.toNat / 16 % 16),
    Nat.digitChar (u.toNat % 16)]

/-- the letter of the escape of two characters that a unit is written with -/
def shortEscape (n : ℕ) : Option Char :=
  if n = 8 then some 'b'
  else if n = 9 then some 't'
  else if n = 10 then some 'n'
  else if n = 12 then some 'f'
  else if n = 13 then some 'r'
  else if n = '"'.toNat then some '"'
  else if n = '\\'.toNat then some '\\'
  else none

/-- a unit that is no half of a pair -/
def quoteUnit (u : UInt16) : Text :=
  match shortEscape u.toNat with
  | some c => ['\\', c]
  | none =>
    if u.toNat < 32 ∨ isHigh u.toNat = true ∨ isLow u.toNat = true then '\\' :: 'u' :: hexDigits u
    else [Char.ofNat u.toNat]

/-- the character of a pair of surrogates -/
def pairChar (u v : UInt16) : Char := Char.ofNat (0x10000 + (u.toNat - 0xD800) * 0x400 + (v.toNat - 0xDC00))

def quote : Units → Text
  | u :: v :: s =>
    if isHigh u.toNat = true ∧ isLow v.toNat = true then pairChar u v :: quote s else quoteUnit u ++ quote (v :: s)
  | [u] => quoteUnit u
  | [] => []

/-! ## Single units -/

theorem toNat_ofNat {n : ℕ} (h : n.isValidChar) : (Char.ofNat n).toNat = n := by
  rw [Char.ofNat, dif_pos h]
  rfl

theorem decode_plain {c : Char} (h : c ≠ '\\') (raw : Text) : decode (c :: raw) = unitsOf c ++ decode raw := by
  rw [decode] <;> simp [h]

theorem decode_escape {c : Char} (h : c ≠ 'u') (raw : Text) :
    decode ('\\' :: c :: raw) = unitsOf ((simpleEscape c).getD c) ++ decode raw := by
  rw [decode]
  simp [h]

theorem shortEscape_some {n : ℕ} {c : Char} (h : shortEscape n = some c) :
    c ≠ 'u' ∧ ∃ d, simpleEscape c = some d ∧ d.toNat = n := by
  unfold shortEscape at h
  split_ifs at h with he he he he he he he <;> cases h <;> rw [he]
  · exact ⟨by decide, '\x08', rfl, rfl⟩
  · exact ⟨by decide, '\t', rfl, rfl⟩
  · exact ⟨by decide, '\n', rfl, rfl⟩
  · exact ⟨by decide, '\x0c', rfl, rfl⟩
  · exact ⟨by decide, '\r', rfl, rfl⟩
  · exact ⟨by decide, '"', rfl, rfl⟩
  · exact ⟨by decide, '\\', rfl, rfl⟩

theorem shortEscape_none {n : ℕ} (h : shortEscape n = none) : n ≠ '"'.toNat ∧ n ≠ '\\'.toNat := by
  unfold shortEscape at h
  split_ifs at h with _ _ _ _ _ hquote hback
  exact ⟨hquote, hback⟩

theorem hexValue_digitChar {n : ℕ} (h : n < 16) : hexValue (Nat.digitChar n) = some n := by
  interval_cases n <;> rfl

theorem hexUnit_hexDigits (u : UInt16) (raw : Text) :
    decode ('\\' :: 'u' :: (hexDigits u ++ raw)) = u :: decode raw := by
  have hlt : u.toNat < 65536 := u.toNat_lt
  simp only [hexDigits, List.cons_append, List.nil_append, decode, hexUnit, List.foldl_cons, List.foldl_nil]
  rw [hexValue_digitChar (by omega), hexValue_digitChar (by omega), hexValue_digitChar (by omega),
    hexValue_digitChar (by omega)]
  simp only [Option.getD_some, List.cons.injEq, and_true]
  have hsum : 16 * (16 * (16 * (16 * 0 + u.toNat / 4096) + u.toNat / 256 % 16) + u.toNat / 16 % 16) + u.toNat % 16 =
      u.toNat := by omega
  rw [hsum, UInt16.ofNat_toNat]

/-- a unit that is no surrogate is a character -/
theorem valid_unit {u : UInt16} (hhigh : isHigh u.toNat = false) (hlow : isLow u.toNat = false) :
    u.toNat.isValidChar := by
  have hlt : u.toNat < 65536 := u.toNat_lt
  simp only [isHigh, isLow, Bool.and_eq_false_iff, decide_eq_false_iff_not] at hhigh hlow
  unfold Nat.isValidChar
  omega

theorem unitsOf_unit {u : UInt16} (h : u.toNat.isValidChar) : unitsOf (Char.ofNat u.toNat) = [u] := by
  have hlt : u.toNat < 65536 := u.toNat_lt
  rw [unitsOf, toNat_ofNat h, if_pos hlt, UInt16.ofNat_toNat]

section
variable {u v : UInt16} (hu : isHigh u.toNat = true) (hv : isLow v.toNat = true)
include hu hv

theorem toNat_pairChar :
    (pairChar u v).toNat = 0x10000 + (u.toNat - 0xD800) * 0x400 + (v.toNat - 0xDC00) := by
  simp only [isHigh, isLow, Bool.and_eq_true, decide_eq_true_eq] at hu hv
  refine toNat_ofNat ?_
  unfold Nat.isValidChar
  omega

theorem unitsOf_pairChar : unitsOf (pairChar u v) = [u, v] := by
  have hn := toNat_pairChar hu hv
  simp only [isHigh, isLow, Bool.and_eq_true, decide_eq_true_eq] at hu hv
  have h1 : 0xD800 + ((pairChar u v).toNat - 0x10000) / 0x400 = u.toNat := by omega
  have h2 : 0xDC00 + ((pairChar u v).toNat - 0x10000) % 0x400 = v.toNat := by omega
  rw [unitsOf, if_neg (by omega), h1, h2, UInt16.ofNat_toNat, UInt16.ofNat_toNat]

theorem pairChar_plain : pairChar u v ≠ '\\' ∧ pairChar u v ≠ '"' ∧ isControl (pairChar u v) = false := by
  have hn := toNat_pairChar hu hv
  refine ⟨fun he => ?_, fun he => ?_, ?_⟩
  · rw [he] at hn
    simp at hn
    omega
  · rw [he] at hn
    simp at hn
    omega
  · simp only [isControl, decide_eq_false_iff_not]
    omega

end

/-! ## Whole strings -/

theorem legalStr_append {a b : Text} (ha : LegalStr a) (hb : LegalStr b) : LegalStr (a ++ b) := by
  unfold LegalStr
  rw [List.foldlM_append, ha]
  exact hb

theorem legalStr_hex {a b c d : Char} (h : ∀ x ∈ [a, b, c, d], (hexValue x).isSome) :
    LegalStr ['\\', 'u', a, b, c, d] := by
  have hstep : ∀ (n : ℕ) {x : Char}, x ∈ [a, b, c, d] →
      strStep (.hex 0) x = some .plain ∧ strStep (.hex (n + 1)) x = some (.hex n) := by
    intro n x hx
    obtain ⟨value, hvalue⟩ := Option.isSome_iff_exists.1 (h x hx)
    simp [strStep, hvalue]
  have ha := (hstep 2 (by simp : a ∈ _)).2
  have hb := (hstep 1 (by simp : b ∈ _)).2
  have hc := (hstep 0 (by simp : c ∈ _)).2
  have hd := (hstep 0 (by simp : d ∈ _)).1
  simp [LegalStr, List.foldlM_cons, strStep.eq_1, strStep.eq_2, ha, hb, hc, hd]

/-- a unit that is written as it is -/
theorem plain_unit {u : UInt16} (hshort : shortEscape u.toNat = none)
    (h : ¬ (u.toNat < 32 ∨ isHigh u.toNat = true ∨ isLow u.toNat = true)) :
    (Char.ofNat u.toNat ≠ '"' ∧ Char.ofNat u.toNat ≠ '\\' ∧ isControl (Char.ofNat u.toNat) = false) ∧
      unitsOf (Char.ofNat u.toNat) = [u] := by
  simp only [not_or, Bool.not_eq_true] at h
  obtain ⟨hcontrol, hhigh, hlow⟩ := h
  obtain ⟨hquote, hback⟩ := shortEscape_none hshort
  have hvalid := valid_unit hhigh hlow
  have hn := toNat_ofNat hvalid
  refine ⟨⟨fun he => hquote ?_, fun he => hback ?_, ?_⟩, unitsOf_unit hvalid⟩
  · rw [← hn, he]
  · rw [← hn, he]
  · rw [isControl, hn]
    exact decide_eq_false hcontrol

theorem hexDigits_value (u : UInt16) : ∀ x ∈ hexDigits u, (hexValue x).isSome := by
  have hlt : u.toNat < 65536 := u.toNat_lt
  have hdigit : ∀ {n : ℕ}, n < 16 → (hexValue (Nat.digitChar n)).isSome := by
    intro n hn
    rw [hexValue_digitChar hn]
    rfl
  intro x hx
  simp only [hexDigits, List.mem_cons, List.not_mem_nil, or_false] at hx
  rcases hx with rfl | rfl | rfl | rfl
  · exact hdigit (by omega)
  · exact hdigit (by omega)
  · exact hdigit (by omega)
  · exact hdigit (by omega)

theorem quoteUnit_legal (u : UInt16) : LegalStr (quoteUnit u) := by
  unfold quoteUnit
  split
  · rename_i c hc
    obtain ⟨hu, d, hd, -⟩ := shortEscape_some hc
    simp [LegalStr, List.foldlM_cons, strStep, hu, hd]
  · rename_i hshort
    split_ifs with hescape
    · exact legalStr_hex (hexDigits_value u)
    · refine legalStr_plain fun c hc => ?_
      rw [List.mem_singleton.1 hc]
      exact (plain_unit hshort hescape).1

/-- **What JSON.stringify writes is a legal string.** -/
theorem quote_legal (s : Units) : LegalStr (quote s) := by
  induction s using quote.induct with
  | case1 u v s hpair ih =>
    rw [quote, if_pos hpair]
    have hplain := pairChar_plain hpair.1 hpair.2
    refine legalStr_append (a := [pairChar u v]) (legalStr_plain fun c hc => ?_) ih
    rw [List.mem_singleton.1 hc]
    exact ⟨hplain.2.1, hplain.1, hplain.2.2⟩
  | case2 u v s hpair ih =>
    rw [quote, if_neg hpair]
    exact legalStr_append (quoteUnit_legal u) ih
  | case3 u => exact quoteUnit_legal u
  | case4 => rfl

theorem decode_quoteUnit (u : UInt16) (raw : Text) : decode (quoteUnit u ++ raw) = u :: decode raw := by
  unfold quoteUnit
  split
  · rename_i c hc
    obtain ⟨hu, d, hd, hn⟩ := shortEscape_some hc
    have hlt : d.toNat < 0x10000 := by
      rw [hn]
      exact u.toNat_lt
    have hunits : unitsOf d = [u] := by rw [unitsOf, if_pos hlt, hn, UInt16.ofNat_toNat]
    rw [List.cons_append, List.singleton_append, decode_escape hu, hd, Option.getD_some, hunits, List.singleton_append]
  · rename_i hshort
    split_ifs with hescape
    · exact hexUnit_hexDigits u raw
    · obtain ⟨hplain, hunits⟩ := plain_unit hshort hescape
      rw [List.singleton_append, decode_plain hplain.2.1, hunits, List.singleton_append]

/-- **What JSON.stringify writes stands for the units that it was given.** -/
theorem decode_quote (s : Units) : decode (quote s) = s := by
  induction s using quote.induct with
  | case1 u v s hpair ih =>
    rw [quote, if_pos hpair, decode_plain (pairChar_plain hpair.1 hpair.2).1, unitsOf_pairChar hpair.1 hpair.2, ih]
    rfl
  | case2 u v s hpair ih => rw [quote, if_neg hpair, decode_quoteUnit, ih]
  | case3 u =>
    have h := decode_quoteUnit u []
    rwa [List.append_nil] at h
  | case4 => rfl

/-! ## Texts -/

theorem ofText_cons (c : Char) (s : Text) : ofText (c :: s) = unitsOf c ++ ofText s := List.flatMap_cons

theorem ofText_append (s t : Text) : ofText (s ++ t) = ofText s ++ ofText t := List.flatMap_append

/-- without a backslash a string stands for itself -/
theorem decode_text {raw : Text} (hb : '\\' ∉ raw) : decode raw = ofText raw := by
  induction raw with
  | nil => rfl
  | cons c raw ih =>
    obtain ⟨hc, hrest⟩ := List.ne_and_not_mem_of_not_mem_cons hb
    rw [decode_plain (Ne.symm hc), ih hrest, ofText_cons]

theorem unitsOf_length (c : Char) : 1 ≤ (unitsOf c).length := by
  unfold unitsOf
  split_ifs <;> simp

theorem escape_length (c : Char) : (unitsOf ((simpleEscape c).getD c)).length ≤ (unitsOf c).length := by
  cases h : simpleEscape c with
  | none => exact le_refl _
  | some d =>
    have hunit : (unitsOf d).length = 1 := by
      unfold simpleEscape at h
      split_ifs at h with hself
      · cases h
        rcases hself with rfl | rfl | rfl <;> rfl
      all_goals cases h; rfl
    rw [Option.getD_some, hunit]
    exact unitsOf_length c

theorem decode_length_le (raw : Text) : (decode raw).length ≤ (ofText raw).length := by
  induction raw using decode.induct with
  | case1 a b c d raw ih =>
    have hbackslash := unitsOf_length '\\'
    rw [decode, ofText_cons]
    simp only [ofText_cons, List.length_cons, List.length_append]
    omega
  | case2 c raw hu ih =>
    have hread : decode ('\\' :: c :: raw) = unitsOf ((simpleEscape c).getD c) ++ decode raw := by
      rw [decode]
      exact hu
    have hescape := escape_length c
    rw [hread, ofText_cons, ofText_cons]
    simp only [List.length_append]
    omega
  | case3 c raw hu hc ih =>
    have hread : decode (c :: raw) = unitsOf c ++ decode raw := by
      rw [decode]
      · exact hu
      · exact hc
    rw [hread, ofText_cons, List.length_append, List.length_append]
    omega
  | case4 => exact le_refl _

/-- **A legal string with an escape stands for fewer units than it is written with.** -/
theorem decode_length_lt {raw : Text} (h : LegalStr raw) (hb : '\\' ∈ raw) :
    (decode raw).length < (ofText raw).length := by
  induction raw with
  | nil => exact absurd hb List.not_mem_nil
  | cons c raw ih =>
    by_cases hc : c = '\\'
    · subst hc
      clear ih
      have hone := unitsOf_length '\\'
      -- what the backslash stands before is no end, and it is read without it
      cases raw with
      | nil => cases h
      | cons d raw =>
        by_cases hu : ∃ a b c' d' rest, d = 'u' ∧ raw = a :: b :: c' :: d' :: rest
        · obtain ⟨a, b, c', d', rest, rfl, rfl⟩ := hu
          have hrest := decode_length_le rest
          have ha := unitsOf_length a
          have hb' := unitsOf_length b
          rw [decode]
          simp only [ofText_cons, List.length_cons, List.length_append]
          omega
        · have hread : decode ('\\' :: d :: raw) = unitsOf ((simpleEscape d).getD d) ++ decode raw := by
            rw [decode]
            exact fun a b c' d' rest hd hraw => hu ⟨a, b, c', d', rest, hd, hraw⟩
          have hescape := escape_length d
          have hrest := decode_length_le raw
          rw [hread, ofText_cons, ofText_cons]
          simp only [List.length_append]
          omega
    · have hlegal : LegalStr raw := by
        unfold LegalStr at h ⊢
        rw [List.foldlM_cons] at h
        obtain ⟨st, hst, h⟩ := Option.bind_eq_some_iff.1 h
        simp only [strStep, if_neg hc] at hst
        split_ifs at hst
        cases hst
        exact h
      have hlt := ih hlegal ((List.mem_cons.1 hb).resolve_left (Ne.symm hc))
      rw [decode_plain hc, ofText_cons, List.length_append, List.length_append]
      omega

theorem unit_inj {a b : ℕ} (ha : a < 65536) (hb : b < 65536) (h : UInt16.ofNat a = UInt16.ofNat b) : a = b := by
  have hnat := congrArg UInt16.toNat h
  rwa [UInt16.toNat_ofNat_of_lt' ha, UInt16.toNat_ofNat_of_lt' hb] at hnat

/-- the first units tell the first character: a pair begins with a unit that is no character -/
theorem unitsOf_inj {c d : Char} {s t : Units} (h : unitsOf c ++ s = unitsOf d ++ t) : c = d ∧ s = t := by
  have hc : c.toNat < 0xD800 ∨ 0xDFFF < c.toNat ∧ c.toNat < 0x110000 := c.valid
  have hd : d.toNat < 0xD800 ∨ 0xDFFF < d.toNat ∧ d.toNat < 0x110000 := d.valid
  have hsame : c.toNat = d.toNat → c = d := fun he => Char.toNat_inj.1 he
  unfold unitsOf at h
  split_ifs at h with hcs hds hds <;> simp only [List.cons_append, List.nil_append, List.cons.injEq] at h
  · exact ⟨hsame (unit_inj hcs hds h.1), h.2⟩
  · have := unit_inj (by omega) (by omega) h.1
    omega
  · have := unit_inj (by omega) (by omega) h.1
    omega
  · have hhigh := unit_inj (by omega) (by omega) h.1
    have hlow := unit_inj (by omega) (by omega) h.2.1
    exact ⟨hsame (by omega), h.2.2⟩

theorem ofText_ne_nil (c : Char) (s : Text) : ofText (c :: s) ≠ [] := by
  intro h
  rw [ofText_cons, List.append_eq_nil_iff] at h
  have hone := unitsOf_length c
  rw [h.1] at hone
  exact absurd hone (by simp)

/-- **Different texts have different units.** -/
theorem ofText_injective : Function.Injective ofText := by
  intro s t h
  induction s generalizing t with
  | nil =>
    cases t with
    | nil => rfl
    | cons d t => exact absurd h.symm (ofText_ne_nil d t)
  | cons c s ih =>
    cases t with
    | nil => exact absurd h (ofText_ne_nil c s)
    | cons d t =>
      rw [ofText_cons, ofText_cons] at h
      obtain ⟨rfl, hrest⟩ := unitsOf_inj h
      rw [ih hrest]

end IconSetup.JsString
