/-
A raw JSON string token by token: a character that stands for itself, an escape of two characters, or an escape of a
code unit by its four hexadecimal digits. What is done to a string escape by escape is a function of its tokens.

- `tokens_text`: the tokens make up the string.
- `tokens_legal`: those of a legal string are legal.
- `decode_eq`: the units of a string are those of its tokens.
-/
import Mathlib.Tactic
import IconSetup.Core.JsString

namespace IconSetup.JsonTokens

open IconSetup.JsonLex IconSetup.JsString

inductive Token where
  | char (c : Char)
  | short (c : Char)
  | unicode (a b c d : Char)
deriving DecidableEq, Repr

def Token.text : Token → Text
  | .char c => [c]
  | .short c => ['\\', c]
  | .unicode a b c d => ['\\', 'u', a, b, c, d]

def Token.units : Token → Units
  | .char c => unitsOf c
  | .short c => unitsOf ((simpleEscape c).getD c)
  | .unicode a b c d => [hexUnit a b c d]

/-- a token that may stand in a string -/
def Token.Legal : Token → Prop
  | .char c => c ≠ '"' ∧ c ≠ '\\' ∧ isControl c = false
  | .short c => (simpleEscape c).isSome
  | .unicode a b c d => ∀ x ∈ [a, b, c, d], (hexValue x).isSome

def tokens : Text → List Token
  | '\\' :: 'u' :: a :: b :: c :: d :: raw => .unicode a b c d :: tokens raw
  | '\\' :: c :: raw => .short c :: tokens raw
  | c :: raw => .char c :: tokens raw
  | [] => []

/-- **The tokens make up the string.** -/
theorem tokens_text (raw : Text) : (tokens raw).flatMap Token.text = raw := by
  induction raw using tokens.induct with
  | case1 a b c d raw ih => rw [tokens, List.flatMap_cons, ih]; rfl
  | case2 c raw hnot ih =>
    rw [tokens, List.flatMap_cons, ih]
    · rfl
    · exact hnot
  | case3 c raw hunicode hshort ih =>
    rw [tokens, List.flatMap_cons, ih]
    · rfl
    · exact hunicode
    · exact hshort
  | case4 => rfl

/-- **The units of a string are those of its tokens.** -/
theorem decode_eq (raw : Text) : decode raw = (tokens raw).flatMap Token.units := by
  induction raw using tokens.induct with
  | case1 a b c d raw ih => rw [tokens, decode, List.flatMap_cons, ih]; rfl
  | case2 c raw hnot ih =>
    rw [tokens, decode, List.flatMap_cons, ih]
    · rfl
    · exact hnot
    · exact hnot
  | case3 c raw hunicode hshort ih =>
    rw [tokens, decode, List.flatMap_cons, ih]
    · rfl
    · exact hunicode
    · exact hshort
    · exact hunicode
    · exact hshort
  | case4 => rfl

/-- where a digit is due, one stands -/
theorem hex_cons {n : ℕ} {s : Text} (h : s.foldlM strStep (.hex n) = some .plain) :
    ∃ x rest, s = x :: rest ∧ (hexValue x).isSome ∧
      rest.foldlM strStep (if n = 0 then .plain else .hex (n - 1)) = some .plain := by
  cases s with
  | nil => cases h
  | cons x rest =>
    rw [List.foldlM_cons] at h
    obtain ⟨st, hst, hrest⟩ := Option.bind_eq_some_iff.1 h
    refine ⟨x, rest, rfl, ?_⟩
    cases n with
    | zero =>
      obtain ⟨value, hvalue, rfl⟩ := Option.map_eq_some_iff.1 hst
      exact ⟨Option.isSome_iff_exists.2 ⟨value, hvalue⟩, hrest⟩
    | succ n =>
      obtain ⟨value, hvalue, rfl⟩ := Option.map_eq_some_iff.1 hst
      exact ⟨Option.isSome_iff_exists.2 ⟨value, hvalue⟩, hrest⟩

/-- behind `\u` there are four digits -/
theorem hex_four {s : Text} (h : s.foldlM strStep (.hex 3) = some .plain) :
    ∃ a b c d rest, s = a :: b :: c :: d :: rest ∧ (∀ x ∈ [a, b, c, d], (hexValue x).isSome) ∧ LegalStr rest := by
  obtain ⟨a, s, rfl, ha, h⟩ := hex_cons h
  obtain ⟨b, s, rfl, hb, h⟩ := hex_cons h
  obtain ⟨c, s, rfl, hc, h⟩ := hex_cons h
  obtain ⟨d, s, rfl, hd, h⟩ := hex_cons h
  refine ⟨a, b, c, d, s, rfl, ?_, h⟩
  intro x hx
  simp only [List.mem_cons, List.not_mem_nil, or_false] at hx
  rcases hx with rfl | rfl | rfl | rfl <;> assumption

/-- behind a backslash there is the letter of an escape -/
theorem backslash_cons {s : Text} (h : LegalStr ('\\' :: s)) :
    ∃ c rest, s = c :: rest ∧ (c = 'u' ∧ rest.foldlM strStep (.hex 3) = some .plain ∨
      c ≠ 'u' ∧ (simpleEscape c).isSome ∧ LegalStr rest) := by
  have hrest : s.foldlM strStep .backslash = some .plain := h
  cases s with
  | nil => cases hrest
  | cons c rest =>
    rw [List.foldlM_cons] at hrest
    obtain ⟨st, hst, hrest⟩ := Option.bind_eq_some_iff.1 hrest
    refine ⟨c, rest, rfl, ?_⟩
    by_cases hu : c = 'u'
    · subst hu
      cases hst
      exact Or.inl ⟨rfl, hrest⟩
    · have hstep : strStep .backslash c = (simpleEscape c).map fun _ => .plain := if_neg hu
      rw [hstep] at hst
      obtain ⟨e, he, rfl⟩ := Option.map_eq_some_iff.1 hst
      exact Or.inr ⟨hu, Option.isSome_iff_exists.2 ⟨e, he⟩, hrest⟩

theorem plain_cons {c : Char} {s : Text} (hc : c ≠ '\\') (h : LegalStr (c :: s)) :
    (Token.char c).Legal ∧ LegalStr s := by
  unfold LegalStr at h
  rw [List.foldlM_cons] at h
  obtain ⟨st, hst, hrest⟩ := Option.bind_eq_some_iff.1 h
  have hstep : strStep .plain c = if c = '"' ∨ isControl c = true then none else some .plain := if_neg hc
  rw [hstep] at hst
  split_ifs at hst with hplain
  cases hst
  obtain ⟨hquote, hcontrol⟩ := not_or.1 hplain
  exact ⟨⟨hquote, hc, Bool.eq_false_iff.2 hcontrol⟩, hrest⟩

/-- **The tokens of a legal string are legal.** -/
theorem tokens_legal {raw : Text} (h : LegalStr raw) : ∀ t ∈ tokens raw, t.Legal := by
  induction raw using tokens.induct with
  | case1 a b c d raw ih =>
    obtain ⟨u, rest, he, hcases⟩ := backslash_cons h
    obtain ⟨rfl, rfl⟩ := List.cons.inj he
    have hdigits := (hcases.resolve_right fun hsimple => hsimple.1 rfl).2
    obtain ⟨a', b', c', d', raw', he', hvalues, hlegal⟩ := hex_four hdigits
    cases he'
    intro t ht
    rcases List.mem_cons.1 ht with rfl | ht
    · exact hvalues
    · exact ih hlegal t ht
  | case2 c raw hnot ih =>
    obtain ⟨c', rest, he, hcases⟩ := backslash_cons h
    obtain ⟨rfl, rfl⟩ := List.cons.inj he
    rcases hcases with ⟨rfl, hdigits⟩ | ⟨-, hsimple, hlegal⟩
    · obtain ⟨a, b, d, e, rest, rfl, -, -⟩ := hex_four hdigits
      exact absurd rfl (hnot a b d e rest rfl)
    · intro t ht
      rw [tokens] at ht
      · rcases List.mem_cons.1 ht with rfl | ht
        · exact hsimple
        · exact ih hlegal t ht
      · exact hnot
  | case3 c raw hunicode hshort ih =>
    have hback : c ≠ '\\' := by
      rintro rfl
      obtain ⟨d, rest, rfl, -⟩ := backslash_cons h
      exact hshort d rest rfl rfl
    obtain ⟨hplain, hlegal⟩ := plain_cons hback h
    intro t ht
    rw [tokens] at ht
    · rcases List.mem_cons.1 ht with rfl | ht
      · exact hplain
      · exact ih hlegal t ht
    · exact hunicode
    · exact hshort
  | case4 => exact fun t ht => absurd ht List.not_mem_nil

end IconSetup.JsonTokens
