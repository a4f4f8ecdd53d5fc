/-
The tokens of JSON text (RFC 8259): white space, numbers and strings.

Numbers and the inside of strings are read one character at a time by a small automaton, so that what a token is made
of can be followed character by character. A string is kept raw, as it stands between its quotes; `unescape` gives the
characters it stands for. An escaped UTF-16 surrogate must be one half of a pair.

- `takeWhile_append`: white space, or a run of characters of any kind, is read as far as it goes.
- `number_append`: a number is read up to the first character that no number contains.
- `strBody_iff`: a string is read up to its closing quote, and what it contains is legal.
- `unescape_plain`: without a backslash a string stands for itself.
- `unescape_length`: with one it stands for a shorter text.
-/
import Mathlib.Data.List.TakeWhile
import Mathlib.Tactic

namespace IconSetup.JsonLex

abbrev Text := List Char

/-! ## White space -/

def isBlank (c : Char) : Bool := c = ' ' || c = '\t' || c = '\n' || c = '\r'

def Blank (s : Text) : Prop := ∀ c ∈ s, isBlank c = true

instance (s : Text) : Decidable (Blank s) := List.decidableBAll (fun c => isBlank c = true) s

theorem nil_blank : Blank [] := fun _ hc => absurd hc List.not_mem_nil

/-- the text does not go on with a character of this kind -/
def Stops (kind : Char → Bool) (s : Text) : Prop := ∀ c ∈ s.head?, kind c = false

/-- a run of characters of one kind is read as far as it goes -/
theorem takeWhile_append {kind : Char → Bool} {a s : Text} (ha : ∀ c ∈ a, kind c = true) (hs : Stops kind s) :
    (a ++ s).takeWhile kind = a ∧ (a ++ s).dropWhile kind = s := by
  have hstop : s.takeWhile kind = [] ∧ s.dropWhile kind = s := by
    cases s with
    | nil => exact ⟨rfl, rfl⟩
    | cons c s =>
      have hc : kind c = false := hs c rfl
      simp [hc]
  rw [List.takeWhile_append_of_pos ha, List.dropWhile_append_of_pos ha, hstop.1, hstop.2, List.append_nil]
  exact ⟨rfl, rfl⟩

theorem blank_takeWhile (s : Text) : Blank (s.takeWhile isBlank) := fun _ hc => List.mem_takeWhile_imp hc

/-! ## Numbers -/

/-- how far a number has been read -/
inductive NumState where
  | start
  | minus
  | zero
  | int
  | dot
  | frac
  | e
  | sign
  | exp
deriving DecidableEq, Repr

def isDigit (c : Char) : Bool := '0' ≤ c && c ≤ '9'

/-- the characters that numbers are made of -/
def numChar (c : Char) : Bool := isDigit c || c = '-' || c = '+' || c = '.' || c = 'e' || c = 'E'

def exponent (c : Char) : Option NumState := if c = 'e' ∨ c = 'E' then some .e else none

def numStep : NumState → Char → Option NumState
  | .start, c => if c = '-' then some .minus else if c = '0' then some .zero else if isDigit c then some .int else none
  | .minus, c => if c = '0' then some .zero else if isDigit c then some .int else none
  | .zero, c => if c = '.' then some .dot else exponent c
  | .int, c => if isDigit c then some .int else if c = '.' then some .dot else exponent c
  | .dot, c => if isDigit c then some .frac else none
  | .frac, c => if isDigit c then some .frac else exponent c
  | .e, c => if c = '+' ∨ c = '-' then some .sign else if isDigit c then some .exp else none
  | .sign, c => if isDigit c then some .exp else none
  | .exp, c => if isDigit c then some .exp else none

def isNumber (lit : Text) : Bool :=
  match lit.foldlM numStep .start with
  | some .zero | some .int | some .frac | some .exp => true
  | _ => false

/-- a number at the start of the text -/
def number (s : Text) : Option (Text × Text) :=
  if isNumber (s.takeWhile numChar) then some (s.takeWhile numChar, s.dropWhile numChar) else none

theorem numStep_char {st st' : NumState} {c : Char} (h : numStep st c = some st') : numChar c = true := by
  by_contra hc
  simp only [numChar, Bool.or_eq_true, decide_eq_true_eq, not_or, Bool.not_eq_true] at hc
  obtain ⟨⟨⟨⟨⟨hdigit, hminus⟩, hplus⟩, hdot⟩, he⟩, hE⟩ := hc
  have hzero : c ≠ '0' := by rintro rfl; exact absurd hdigit (by decide)
  cases st <;> simp [numStep, exponent, hdigit, hminus, hplus, hdot, he, hE, hzero] at h

theorem foldlM_numChar {lit : Text} {st st' : NumState} (h : lit.foldlM numStep st = some st') :
    ∀ c ∈ lit, numChar c = true := by
  induction lit generalizing st with
  | nil => intro c hc; exact absurd hc List.not_mem_nil
  | cons c lit ih =>
    rw [List.foldlM_cons] at h
    obtain ⟨mid, hmid, h⟩ := Option.bind_eq_some_iff.1 h
    intro x hx
    rcases List.mem_cons.1 hx with rfl | hx
    · exact numStep_char hmid
    · exact ih h x hx

theorem isNumber_chars {lit : Text} (h : isNumber lit = true) : ∀ c ∈ lit, numChar c = true := by
  unfold isNumber at h
  split at h
  all_goals first
    | exact foldlM_numChar ‹_›
    | cases h

/-- a number begins with its sign or a digit -/
theorem isNumber_head {lit : Text} (h : isNumber lit = true) :
    ∃ c rest, lit = c :: rest ∧ (c = '-' ∨ isDigit c = true) := by
  cases lit with
  | nil => cases h
  | cons c rest =>
    refine ⟨c, rest, rfl, ?_⟩
    by_contra hc
    obtain ⟨hminus, hdigit⟩ := not_or.1 hc
    have hzero : c ≠ '0' := by rintro rfl; exact hdigit (by decide)
    have hnone : numStep .start c = none := by simp [numStep, hminus, hzero, hdigit]
    have hfold : (c :: rest).foldlM numStep .start = none := by rw [List.foldlM_cons, hnone]; rfl
    rw [isNumber, hfold] at h
    cases h

theorem number_some {s lit rest : Text} (h : number s = some (lit, rest)) : s = lit ++ rest ∧ isNumber lit = true := by
  unfold number at h
  split_ifs at h with hn
  cases h
  exact ⟨List.takeWhile_append_dropWhile.symm, hn⟩

/-- a number is read up to the first character that no number contains -/
theorem number_append {lit s : Text} (h : isNumber lit = true) (hs : Stops numChar s) :
    number (lit ++ s) = some (lit, s) := by
  obtain ⟨h1, h2⟩ := takeWhile_append (isNumber_chars h) hs
  rw [number, h1, h2, if_pos h]

/-! ## Strings -/

/-- how far the inside of a string has been read; `hex n` when n more digits are due after the next one -/
inductive StrState where
  | plain
  | backslash
  | hex (n : ℕ)
deriving DecidableEq, Repr

def hexValue (c : Char) : Option ℕ :=
  if '0' ≤ c ∧ c ≤ '9' then some (c.toNat - '0'.toNat)
  else if 'a' ≤ c ∧ c ≤ 'f' then some (c.toNat - 'a'.toNat + 10)
  else if 'A' ≤ c ∧ c ≤ 'F' then some (c.toNat - 'A'.toNat + 10)
  else none

/-- the character of a two-character escape -/
def simpleEscape (c : Char) : Option Char :=
  if c = '"' ∨ c = '\\' ∨ c = '/' then some c
  else if c = 'b' then some '\x08'
  else if c = 'f' then some '\x0c'
  else if c = 'n' then some '\n'
  else if c = 'r' then some '\r'
  else if c = 't' then some '\t'
  else none

/-- a character that may not stand in a string as it is -/
def isControl (c : Char) : Bool := c.toNat < 32

def strStep : StrState → Char → Option StrState
  | .plain, c => if c = '\\' then some .backslash else if c = '"' ∨ isControl c = true then none else some .plain
  | .backslash, c => if c = 'u' then some (.hex 3) else (simpleEscape c).map fun _ => .plain
  | .hex 0, c => (hexValue c).map fun _ => .plain
  | .hex (n + 1), c => (hexValue c).map fun _ => .hex n

/-- what may stand between the quotes of a string -/
def LegalStr (raw : Text) : Prop := raw.foldlM strStep .plain = some .plain

instance (raw : Text) : Decidable (LegalStr raw) := by unfold LegalStr; infer_instance

/-- the rest of a string, up to its closing quote -/
def strBody : StrState → Text → Option (Text × Text)
  | _, [] => none
  | st, c :: s =>
    if st = .plain ∧ c = '"' then some ([], s)
    else
      match strStep st c with
      | none => none
      | some st' => (strBody st' s).map fun p => (c :: p.1, p.2)

theorem strBody_iff {st : StrState} {s raw rest : Text} :
    strBody st s = some (raw, rest) ↔ s = raw ++ '"' :: rest ∧ raw.foldlM strStep st = some .plain := by
  induction s generalizing st raw with
  | nil => simp [strBody]
  | cons c s ih =>
    unfold strBody
    split_ifs with hq
    · obtain ⟨rfl, rfl⟩ := hq
      cases raw with
      | nil => simp [pure]
      | cons d raw =>
        refine iff_of_false (by simp) ?_
        rintro ⟨he, hf⟩
        obtain ⟨rfl, -⟩ := List.cons.inj he
        rw [List.foldlM_cons] at hf
        cases hf
    · constructor
      · intro h
        split at h
        · cases h
        · rename_i st' hst
          obtain ⟨p, hp, he⟩ := Option.map_eq_some_iff.1 h
          cases he
          obtain ⟨h1, h2⟩ := ih.1 hp
          refine ⟨by rw [h1]; rfl, ?_⟩
          rw [List.foldlM_cons, hst]
          exact h2
      · rintro ⟨he, hf⟩
        cases raw with
        | nil =>
          obtain ⟨rfl, rfl⟩ := List.cons.inj he
          exact absurd ⟨Option.some.inj hf, rfl⟩ hq
        | cons d raw =>
          obtain ⟨rfl, rfl⟩ := List.cons.inj he
          rw [List.foldlM_cons] at hf
          obtain ⟨st', hst, hf⟩ := Option.bind_eq_some_iff.1 hf
          have hbody : strBody st' (raw ++ '"' :: rest) = some (raw, rest) := ih.2 ⟨rfl, hf⟩
          simp only [hst]
          exact congrArg (Option.map fun p => (c :: p.1, p.2)) hbody

/-! ## The characters a string stands for -/

/-- how far an escape has been read; `hi` is a first half of a surrogate pair that waits for its second, `acc` the
value of the digits so far -/
inductive EscState where
  | plain (hi : Option ℕ)
  | backslash (hi : Option ℕ)
  | hex (hi : Option ℕ) (n acc : ℕ)
deriving DecidableEq, Repr

def isHigh (u : ℕ) : Bool := 0xD800 ≤ u && u ≤ 0xDBFF

def isLow (u : ℕ) : Bool := 0xDC00 ≤ u && u ≤ 0xDFFF

/-- a code unit: nothing yet, or a character; `none` when the unit does not pair -/
def codeUnit (hi : Option ℕ) (u : ℕ) : Option (Option ℕ × Text) :=
  match hi with
  | some h => if isLow u then some (none, [Char.ofNat (0x10000 + (h - 0xD800) * 0x400 + (u - 0xDC00))]) else none
  | none => if isHigh u then some (some u, []) else if isLow u then none else some (none, [Char.ofNat u])

/-- one character of the raw text: the state after it, and the characters it completes -/
def escStep : EscState → Char → Option (EscState × Text)
  | .plain hi, c =>
    if c = '\\' then some (.backslash hi, []) else if hi = none then some (.plain none, [c]) else none
  | .backslash hi, c =>
    if c = 'u' then some (.hex hi 3 0, [])
    else if hi = none then (simpleEscape c).map fun c' => (.plain none, [c'])
    else none
  | .hex hi 0 acc, c => (hexValue c).bind fun v => (codeUnit hi (acc * 16 + v)).map fun p => (.plain p.1, p.2)
  | .hex hi (n + 1) acc, c => (hexValue c).map fun v => (.hex hi n (acc * 16 + v), [])

def unescapeFrom : EscState → Text → Option Text
  | st, [] => if st = .plain none then some [] else none
  | st, c :: raw =>
    match escStep st c with
    | none => none
    | some (st', out) => (unescapeFrom st' raw).map (out ++ ·)

/-- the text that a raw string stands for; `none` for a surrogate without its pair -/
def unescape (raw : Text) : Option Text := unescapeFrom (.plain none) raw

theorem escStep_length {st st' : EscState} {c : Char} {out : Text} (h : escStep st c = some (st', out)) :
    out.length ≤ 1 := by
  unfold escStep codeUnit at h
  split at h
  · split_ifs at h <;> cases h <;> simp
  · split_ifs at h
    · cases h; simp
    · obtain ⟨c', -, he⟩ := Option.map_eq_some_iff.1 h
      cases he; simp
  · obtain ⟨v, -, h⟩ := Option.bind_eq_some_iff.1 h
    obtain ⟨p, hp, he⟩ := Option.map_eq_some_iff.1 h
    cases he
    split at hp <;> split_ifs at hp <;> cases hp <;> simp
  · obtain ⟨v, -, he⟩ := Option.map_eq_some_iff.1 h
    cases he; simp

theorem unescapeFrom_cons {st : EscState} {c : Char} {raw t : Text} (h : unescapeFrom st (c :: raw) = some t) :
    ∃ st' out t', escStep st c = some (st', out) ∧ unescapeFrom st' raw = some t' ∧ t = out ++ t' := by
  unfold unescapeFrom at h
  split at h
  · cases h
  · rename_i st' out hst
    obtain ⟨t', ht', rfl⟩ := Option.map_eq_some_iff.1 h
    exact ⟨st', out, t', hst, ht', rfl⟩

/-- each character of the raw text completes at most one -/
theorem unescapeFrom_length {st : EscState} {raw t : Text} (h : unescapeFrom st raw = some t) : t.length ≤ raw.length := by
  induction raw generalizing st t with
  | nil =>
    unfold unescapeFrom at h
    split_ifs at h
    cases h
    exact le_refl 0
  | cons c raw ih =>
    obtain ⟨st', out, t', hst, ht', rfl⟩ := unescapeFrom_cons h
    have := escStep_length hst
    have := ih ht'
    simp only [List.length_append, List.length_cons]
    omega

/-- a string with a backslash stands for a shorter text -/
theorem unescape_length {raw t : Text} (h : unescape raw = some t) (hb : '\\' ∈ raw) : t.length < raw.length := by
  unfold unescape at h
  induction raw generalizing t with
  | nil => exact absurd hb List.not_mem_nil
  | cons c raw ih =>
    obtain ⟨st', out, t', hst, ht', rfl⟩ := unescapeFrom_cons h
    by_cases hc : c = '\\'
    · subst hc
      cases hst
      have := unescapeFrom_length ht'
      simp only [List.nil_append, List.length_cons]
      omega
    · simp only [escStep, if_neg hc, if_true, Option.some.injEq, Prod.mk.injEq] at hst
      obtain ⟨rfl, rfl⟩ := hst
      have := ih ht' ((List.mem_cons.1 hb).resolve_left (Ne.symm hc))
      simp only [List.singleton_append, List.length_cons]
      omega

/-- a string without a backslash stands for itself -/
theorem unescape_plain {raw : Text} (hb : '\\' ∉ raw) : unescape raw = some raw := by
  unfold unescape
  induction raw with
  | nil => rfl
  | cons c raw ih =>
    obtain ⟨hc, hrest⟩ := List.ne_and_not_mem_of_not_mem_cons hb
    simp only [unescapeFrom, escStep, if_neg (Ne.symm hc), if_true, ih hrest, Option.map_some, List.singleton_append]

/-- characters that are no quote, backslash or control may stand in a string as they are -/
theorem legalStr_plain {raw : Text} (h : ∀ c ∈ raw, c ≠ '"' ∧ c ≠ '\\' ∧ isControl c = false) : LegalStr raw := by
  unfold LegalStr
  induction raw with
  | nil => rfl
  | cons c raw ih =>
    obtain ⟨h1, h2, h3⟩ := h c List.mem_cons_self
    have hstep : strStep .plain c = some .plain := by simp [strStep, h1, h2, h3]
    rw [List.foldlM_cons, hstep]
    exact ih fun x hx => h x (List.mem_cons_of_mem c hx)

/-- where it has no backslash, a legal string has nothing else that a string cannot contain as it is -/
theorem plain_of_legalStr {raw : Text} (h : LegalStr raw) (hb : '\\' ∉ raw) :
    ∀ c ∈ raw, c ≠ '"' ∧ c ≠ '\\' ∧ isControl c = false := by
  unfold LegalStr at h
  induction raw with
  | nil => intro c hc; exact absurd hc List.not_mem_nil
  | cons d raw ih =>
    obtain ⟨hd, hrest⟩ := List.ne_and_not_mem_of_not_mem_cons hb
    rw [List.foldlM_cons] at h
    obtain ⟨st, hst, h⟩ := Option.bind_eq_some_iff.1 h
    simp only [strStep, if_neg (Ne.symm hd)] at hst
    split_ifs at hst with hbad
    cases hst
    obtain ⟨hquote, hcontrol⟩ := not_or.1 hbad
    intro c hc
    rcases List.mem_cons.1 hc with rfl | hc
    · exact ⟨hquote, Ne.symm hd, Bool.not_eq_true _ ▸ hcontrol⟩
    · exact ih h hrest c hc

end IconSetup.JsonLex
