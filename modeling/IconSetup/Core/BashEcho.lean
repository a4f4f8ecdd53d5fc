/-
`echo` as bash has it: the words in front that are made of the letters n, e and E behind a dash are options, and only
with -e are escapes expanded.

- `echo_plain`: without options the words are printed with single blanks between them.
- `echo_option`: with one, what is printed is shorter than the words.
-/
import Mathlib.Tactic
import IconSetup.Core.JsonLex
import IconSetup.Core.Words

namespace IconSetup.BashEcho

open IconSetup.Shell
open IconSetup.JsonLex (hexValue)

/-! ## Escapes -/

/-- how far an escape has been read; behind a letter that announces digits, how many may follow, and the value so far -/
inductive Esc where
  | plain
  | backslash
  | digits (letter : Char) (base left : ℕ) (value : Option ℕ)
deriving DecidableEq, Repr

def simpleEscape (c : Char) : Option Char :=
  if c = 'a' then some '\x07'
  else if c = 'b' then some '\x08'
  else if c = 'e' ∨ c = 'E' then some '\x1b'
  else if c = 'f' then some '\x0c'
  else if c = 'n' then some '\n'
  else if c = 'r' then some '\r'
  else if c = 't' then some '\t'
  else if c = 'v' then some '\x0b'
  else if c = '\\' then some '\\'
  else none

/-- `\0` needs no digits, `\x`, `\u` and `\U` need one at least -/
def announced (c : Char) : Option Esc :=
  if c = '0' then some (.digits c 8 3 (some 0))
  else if c = 'x' then some (.digits c 16 2 none)
  else if c = 'u' then some (.digits c 16 4 none)
  else if c = 'U' then some (.digits c 16 8 none)
  else none

/-- the character of a value; octal digits give a byte -/
def character (base value : ℕ) : Char := Char.ofNat (if base = 8 then value % 256 else value)

/-- what is put out where the digits end -/
def ended (letter : Char) (base : ℕ) : Option ℕ → Chars
  | some value => [character base value]
  | none => ['\\', letter]

def digit (base : ℕ) (c : Char) : Option ℕ := (hexValue c).filter fun d => decide (d < base)

/-- the output, and whether the end was reached: `\c` stops it -/
def escapes : Esc → Chars → Chars × Bool
  | .plain, [] => ([], true)
  | .backslash, [] => (['\\'], true)
  | .digits letter base _ value, [] => (ended letter base value, true)
  | .plain, c :: s =>
    if c = '\\' then escapes .backslash s
    else ((c :: (escapes .plain s).1), (escapes .plain s).2)
  | .backslash, c :: s =>
    if c = 'c' then ([], false)
    else
      match announced c, simpleEscape c with
      | some st, _ => escapes st s
      | none, some d => (d :: (escapes .plain s).1, (escapes .plain s).2)
      | none, none => ('\\' :: c :: (escapes .plain s).1, (escapes .plain s).2)
  | .digits letter base left value, c :: s =>
    match digit base c, left with
    | some d, left + 1 => escapes (.digits letter base left (some (base * value.getD 0 + d))) s
    | _, _ =>
      let rest := if c = '\\' then escapes .backslash s else (c :: (escapes .plain s).1, (escapes .plain s).2)
      (ended letter base value ++ rest.1, rest.2)

/-- the characters of the escape that are read -/
def Esc.size : Esc → ℕ
  | .plain => 0
  | .backslash => 1
  | .digits _ _ _ _ => 2

theorem ended_length (letter : Char) (base : ℕ) (value : Option ℕ) : (ended letter base value).length ≤ 2 := by
  cases value with
  | none => exact le_refl 2
  | some value => exact one_le_two

theorem announced_size {c : Char} {st : Esc} (h : announced c = some st) : st.size = 2 := by
  unfold announced at h
  split_ifs at h
  · cases h; rfl
  · cases h; rfl
  · cases h; rfl
  · cases h; rfl

/-- **What escapes are expanded to is no longer than the escapes.** -/
theorem escapes_length (st : Esc) (s : Chars) : (escapes st s).1.length ≤ st.size + s.length := by
  induction s generalizing st with
  | nil =>
    cases st with
    | plain => exact le_refl 0
    | backslash => exact le_refl 1
    | digits letter base left value => exact ended_length letter base value
  | cons c s ih =>
    have hplain := ih .plain
    have hback := ih .backslash
    simp only [Esc.size] at hplain hback
    cases st with
    | plain =>
      rw [escapes]
      split_ifs
      · simp only [Esc.size, List.length_cons]
        omega
      · simp only [Esc.size, List.length_cons]
        omega
    | backslash =>
      rw [escapes]
      split_ifs
      · exact Nat.zero_le _
      · split
        · rename_i st' hst'
          have hst := ih st'
          rw [announced_size hst'] at hst
          simp only [Esc.size, List.length_cons]
          omega
        · simp only [Esc.size, List.length_cons]
          omega
        · simp only [Esc.size, List.length_cons]
          omega
    | digits letter base left value =>
      have hended := ended_length letter base value
      have hrest : (if c = '\\' then escapes .backslash s
          else (c :: (escapes .plain s).1, (escapes .plain s).2)).1.length ≤ s.length + 1 := by
        split_ifs
        · omega
        · rw [List.length_cons]
          omega
      rw [escapes.eq_def]
      simp only [Esc.size, List.length_cons]
      split
      · exact (ih (.digits _ _ _ _)).trans (by simp only [Esc.size]; omega)
      · rw [List.length_append]
        omega

/-! ## echo -/

/-- -n, -e, -E or several of them in one word -/
def isOption : Chars → Bool
  | '-' :: c :: cs => (c :: cs).all fun c => c = 'n' || c = 'e' || c = 'E'
  | _ => false

/-- `echo words` -/
def echo (words : List Chars) : Chars :=
  let letters := (words.takeWhile isOption).flatMap List.tail
  let text := joined (words.dropWhile isOption)
  let out :=
    if (letters.filter fun c => decide (c ≠ 'n')).getLast? = some 'e' then escapes .plain text else (text, true)
  if letters.contains 'n' || !out.2 then out.1 else out.1 ++ ['\n']

/-- **Without options the words are printed with single blanks between them.** -/
theorem echo_plain {words : List Chars} (h : ∀ w ∈ words.head?, isOption w = false) :
    echo words = joined words ++ ['\n'] := by
  have hnone : words.takeWhile isOption = [] ∧ words.dropWhile isOption = words := by
    cases words with
    | nil => exact ⟨rfl, rfl⟩
    | cons w words =>
      have hw : ¬ isOption w = true := Bool.eq_false_iff.1 (h w rfl)
      exact ⟨List.takeWhile_cons_of_neg hw, List.dropWhile_cons_of_neg hw⟩
  rw [echo, hnone.1, hnone.2]
  rfl

theorem not_option {word : Chars} (h : '-' ∉ word) : isOption word = false := by
  unfold isOption
  split
  · exact absurd List.mem_cons_self h
  · rfl

theorem size_dropWhile_le (p : Chars → Bool) (words : List Chars) : size (words.dropWhile p) ≤ size words := by
  induction words with
  | nil => exact le_refl 0
  | cons w words ih =>
    rw [List.dropWhile_cons]
    split_ifs
    · rw [size_cons]
      omega
    · exact le_refl _

theorem option_length {w : Chars} (h : isOption w = true) : 2 ≤ w.length := by
  unfold isOption at h
  split at h
  · simp
  · cases h

theorem echo_length (words : List Chars) : (echo words).length ≤ size (words.dropWhile isOption) + 1 := by
  have htext := joined_length_le (words.dropWhile isOption)
  have hescapes := escapes_length .plain (joined (words.dropWhile isOption))
  simp only [Esc.size] at hescapes
  have hline : ∀ out : Chars, out.length ≤ size (words.dropWhile isOption) →
      (out ++ ['\n']).length ≤ size (words.dropWhile isOption) + 1 := by
    intro out hout
    rw [List.length_append]
    exact Nat.add_le_add_right hout 1
  unfold echo
  simp only
  split_ifs
  · omega
  · exact hline _ (by omega)
  · exact htext.trans (Nat.le_succ _)
  · exact hline _ htext

/-- **With an option, what is printed is shorter than the words.** -/
theorem echo_option {w : Chars} (h : isOption w = true) (words : List Chars) :
    (echo (w :: words)).length + 2 ≤ size (w :: words) := by
  have hdrop : (w :: words).dropWhile isOption = words.dropWhile isOption := List.dropWhile_cons_of_pos h
  have hecho := echo_length (w :: words)
  have hrest := size_dropWhile_le isOption words
  have hw := option_length h
  rw [hdrop] at hecho
  rw [size_cons]
  omega

end IconSetup.BashEcho
