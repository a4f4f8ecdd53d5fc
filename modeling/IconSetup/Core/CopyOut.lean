/-
COPY's text format, as PostgreSQL writes it, and the text forms of the types that a table's columns have here. In a
column, a backslash and the control characters that have an escape of their own are printed as escapes, and NULL is
`\N`; a tab stands between two columns and a newline after each row.

- `escapeChar_cases`: what a character is printed as.
- `decode_copyOut`: COPY reads what it has written, column by column, whatever the columns hold.
- `Codec`: a type's text form, with the values it has and the proof that they are read back. `integer`, `smallint`,
  `boolean`, `varchar`.
- `Field`, `Columns`: a nullable or NOT NULL column, and a row of columns (`cons`, `nil`, `iso`).
- `copyIn_copyOut`: a table is read back as it was printed.
-/
import Mathlib.Tactic
import IconSetup.Core.Fallible
import IconSetup.Core.Text
import IconSetup.Core.CopyText

namespace IconSetup.CopyOut

open IconSetup.CopyText IconSetup.Fallible

/-! ## Rows and columns -/

/-- the letter that stands for a control character after a backslash -/
def control (c : Char) : Option Char :=
  if c = '\x08' then some 'b'
  else if c = '\x0c' then some 'f'
  else if c = '\n' then some 'n'
  else if c = '\r' then some 'r'
  else if c = '\t' then some 't'
  else if c = '\x0b' then some 'v'
  else none

def escapeChar (c : Char) : List Char :=
  match control c with
  | some e => ['\\', e]
  | none => if c = '\\' then ['\\', '\\'] else [c]

def escape (s : List Char) : List Char := s.flatMap escapeChar

def printColumn : Option (List Char) → List Char
  | none => ['\\', 'N']
  | some s => escape s

def printRow (row : List (Option (List Char))) : List Char := joined '\t' (row.map printColumn)

def copyOut (rows : List (List (Option (List Char)))) : List Char := printed (rows.map printRow)

/-- an escape that is read back as the character, or the character itself -/
theorem escapeChar_cases (c : Char) :
    (∃ e, escapeChar c = ['\\', e] ∧ e ∉ ['.', 'N', '\t', '\n'] ∧ backslashStep e = (.plain, String.utf8EncodeChar c)) ∨
    (escapeChar c = [c] ∧ c ∉ ['\\', '\t', '\n', '\r']) := by
  unfold escapeChar control
  by_cases hb : c = '\x08'
  · subst hb; exact Or.inl ⟨'b', rfl, by decide, by decide⟩
  by_cases hf : c = '\x0c'
  · subst hf; exact Or.inl ⟨'f', rfl, by decide, by decide⟩
  by_cases hn : c = '\n'
  · subst hn; exact Or.inl ⟨'n', rfl, by decide, by decide⟩
  by_cases hr : c = '\r'
  · subst hr; exact Or.inl ⟨'r', rfl, by decide, by decide⟩
  by_cases ht : c = '\t'
  · subst ht; exact Or.inl ⟨'t', rfl, by decide, by decide⟩
  by_cases hv : c = '\x0b'
  · subst hv; exact Or.inl ⟨'v', rfl, by decide, by decide⟩
  by_cases hbs : c = '\\'
  · subst hbs; exact Or.inl ⟨'\\', rfl, by decide, by decide⟩
  · simp only [hb, hf, hn, hr, ht, hv, hbs, if_false]
    exact Or.inr ⟨trivial, by simp [hbs, ht, hn, hr]⟩

theorem escape_cons (c : Char) (s : List Char) : escape (c :: s) = escapeChar c ++ escape s := List.flatMap_cons

/-- **A printed column is read as the characters it was printed from.** -/
theorem unescape_escape (s : List Char) : unescape (escape s) = encode s := by
  induction s with
  | nil => rfl
  | cons c s ih =>
    have ih : unescapeFrom .plain (escape s) = encode s := ih
    rw [escape_cons, encode_cons]
    rcases escapeChar_cases c with ⟨e, he, -, hstep⟩ | ⟨he, hc⟩
    · rw [he, unescape, List.cons_append, List.cons_append, List.nil_append, unescapeFrom, unescapeFrom]
      simp only [escStep, plainStep, if_true, List.nil_append, hstep, ih]
    · have hne : c ≠ '\\' := fun h => hc (h ▸ List.mem_cons_self)
      rw [he, unescape, List.cons_append, List.nil_append, unescapeFrom]
      simp only [escStep, plainStep_of_ne hne, ih]

theorem escEnd_escape (s : List Char) : escEnd false (escape s) = false := by
  induction s with
  | nil => rfl
  | cons c s ih =>
    rw [escape_cons]
    rcases escapeChar_cases c with ⟨e, he, -, -⟩ | ⟨he, hc⟩
    · rw [he]
      simpa [escEnd] using ih
    · have hne : c ≠ '\\' := fun h => hc (h ▸ List.mem_cons_self)
      rw [he, List.cons_append, List.nil_append, escEnd, decide_eq_false hne, ih]

theorem legal_escape (s : List Char) : legal (escape s) = true := by
  induction s with
  | nil => rfl
  | cons c s ih =>
    have ih : legalFrom false (escape s) = true := ih
    rw [escape_cons, legal]
    rcases escapeChar_cases c with ⟨e, he, hout, -⟩ | ⟨he, hc⟩
    · have hdot : e ≠ '.' := fun h => hout (h ▸ List.mem_cons_self)
      rw [he]
      simp [legalFrom, hdot, ih]
    · simp only [List.mem_cons, List.not_mem_nil, or_false, not_or] at hc
      rw [he, List.cons_append, List.nil_append, legalFrom, decide_eq_false hc.1, ih]
      simp [hc.2.2.2]

theorem not_mem_escape {d : Char} (hd : d ∈ ['\t', '\n']) (s : List Char) : d ∉ escape s := by
  rw [escape, List.mem_flatMap]
  intro ⟨c, _, hmem⟩
  rcases escapeChar_cases c with ⟨e, he, hout, -⟩ | ⟨he, hc⟩
  · rw [he, List.mem_cons, List.mem_singleton] at hmem
    rcases hmem with rfl | rfl
    · exact absurd hd (by decide)
    · exact hout (List.mem_cons_of_mem _ (List.mem_cons_of_mem _ hd))
  · rw [he, List.mem_singleton] at hmem
    subst hmem
    simp only [List.mem_cons, List.not_mem_nil, or_false] at hd hc
    tauto

/-- no text is printed as NULL is -/
theorem escape_ne_null (s : List Char) : escape s ≠ ['\\', 'N'] := by
  intro h
  cases s with
  | nil => cases h
  | cons c s =>
    rw [escape_cons] at h
    rcases escapeChar_cases c with ⟨e, he, hout, -⟩ | ⟨he, hc⟩
    · rw [he, List.cons_append, List.cons_append, List.cons.injEq, List.cons.injEq] at h
      exact hout (h.2.1 ▸ List.mem_cons_of_mem _ List.mem_cons_self)
    · rw [he, List.cons_append, List.cons.injEq] at h
      exact hc (h.1 ▸ List.mem_cons_self)

theorem column_printColumn (v : Option (List Char)) : column (printColumn v) = v.map encode := by
  cases v with
  | none => rfl
  | some s => rw [printColumn, column, if_neg (escape_ne_null s), unescape_escape, Option.map_some]

/-- a printed column ends no row and no column, and is not refused -/
theorem printColumn_sound (v : Option (List Char)) :
    escEnd false (printColumn v) = false ∧ legal (printColumn v) = true ∧
      '\t' ∉ printColumn v ∧ '\n' ∉ printColumn v := by
  cases v with
  | none => exact ⟨rfl, rfl, by decide, by decide⟩
  | some s =>
    exact ⟨escEnd_escape s, legal_escape s, not_mem_escape List.mem_cons_self s,
      not_mem_escape (List.mem_cons_of_mem _ List.mem_cons_self) s⟩

section
variable {row : List (Option (List Char))}

theorem forall_printColumn {P : List Char → Prop} (h : ∀ v, P (printColumn v)) : ∀ f ∈ row.map printColumn, P f := by
  intro f hf
  obtain ⟨v, -, rfl⟩ := List.mem_map.1 hf
  exact h v

theorem pieces_printRow (hne : row ≠ []) : pieces '\t' (printRow row) = row.map printColumn :=
  pieces_joined (by decide) (by simpa using hne) (forall_printColumn fun v => (printColumn_sound v).1)
    (forall_printColumn fun v => (printColumn_sound v).2.2.1)

theorem legal_printRow : legal (printRow row) = true :=
  (legal_joined (by decide) (by decide) (forall_printColumn fun v => (printColumn_sound v).1)).2
    (forall_printColumn fun v => (printColumn_sound v).2.1)

theorem newline_printRow : '\n' ∉ printRow row := by
  intro h
  rcases mem_joined h with h | ⟨f, hf, h⟩
  · cases h
  · obtain ⟨v, -, rfl⟩ := List.mem_map.1 hf
    exact (printColumn_sound v).2.2.2 h

theorem escEnd_printRow : escEnd false (printRow row) = false := by
  induction row with
  | nil => rfl
  | cons v row ih =>
    rw [printRow, List.map_cons]
    by_cases hne : row = []
    · rw [hne]
      exact (printColumn_sound v).1
    · rw [joined_cons '\t' _ (by simpa using hne), escEnd_append (by decide)]
      exact ih

end

/-- **COPY reads what it has written**, whatever characters the columns hold. -/
theorem decode_copyOut {rows : List (List (Option (List Char)))} (hne : ∀ row ∈ rows, row ≠ []) :
    decode (copyOut rows) = some (rows.map fun row => row.map fun v => v.map encode) := by
  have hrow : ∀ {P : List Char → Prop}, (∀ row, P (printRow row)) → ∀ r ∈ rows.map printRow, P r := by
    intro P h r hr
    obtain ⟨row, -, rfl⟩ := List.mem_map.1 hr
    exact h row
  rw [copyOut, decode_printed (hrow fun row => escEnd_printRow) (hrow fun row => newline_printRow),
    if_pos (hrow fun row => legal_printRow), List.map_map]
  refine congrArg some (List.map_congr_left fun row hmem => ?_)
  rw [Function.comp_apply, pieces_printRow (hne row hmem), List.map_map]
  exact List.map_congr_left fun v _ => column_printColumn v

/-! ## Types -/

/-- a type's text form: its values are read back as they are printed, and no text has a U+0000 in it -/
structure Codec (α : Type) where
  print : α → List Char
  read : List Char → Option α
  valid : α → Bool
  read_print : ∀ a, valid a = true → read (print a) = some a
  no_nul : ∀ a, valid a = true → '\x00' ∉ print a

def isspace (c : Char) : Bool := c = ' ' || ('\t' ≤ c && c ≤ '\r')

/-- without the white space at both ends -/
def trim (s : List Char) : List Char := ((s.dropWhile isspace).reverse.dropWhile isspace).reverse

theorem dropWhile_of_forall {s : List Char} (h : ∀ c ∈ s, isspace c = false) : s.dropWhile isspace = s := by
  cases s with
  | nil => rfl
  | cons c s => rw [List.dropWhile_cons_of_neg (by simp [h c List.mem_cons_self])]

theorem trim_of_forall {s : List Char} (h : ∀ c ∈ s, isspace c = false) : trim s = s := by
  rw [trim, dropWhile_of_forall h, dropWhile_of_forall fun c hc => h c (List.mem_reverse.1 hc), List.reverse_reverse]

def digits (s : List Char) : Option ℕ :=
  if s ≠ [] ∧ s.all Char.isDigit = true then some (Nat.ofDigitChars 10 s 0) else none

def signed : List Char → Option ℤ
  | '-' :: s => (digits s).map fun n : ℕ => -(n : ℤ)
  | '+' :: s => (digits s).map fun n : ℕ => (n : ℤ)
  | s => (digits s).map fun n : ℕ => (n : ℤ)

/-- the input function of an integer type with the bounds -/
def integerIn (lo hi : ℤ) (s : List Char) : Option ℤ := (signed (trim s)).filter fun z => decide (lo ≤ z ∧ z ≤ hi)

def integerOut (z : ℤ) : List Char := if z < 0 then '-' :: Nat.toDigits 10 z.natAbs else Nat.toDigits 10 z.natAbs

theorem digits_toDigits (n : ℕ) : digits (Nat.toDigits 10 n) = some n := by
  have hall : (Nat.toDigits 10 n).all Char.isDigit = true :=
    List.all_eq_true.2 fun c hc => Nat.isDigit_of_mem_toDigits (by decide) (by decide) hc
  rw [digits, if_pos ⟨Nat.toDigits_ne_nil, hall⟩, Nat.ofDigitChars_ten_toDigits]

theorem isDigit_bounds {c : Char} (h : c.isDigit = true) : 48 ≤ c.toNat ∧ c.toNat ≤ 57 := Char.isDigit_iff_toNat.1 h

theorem mem_integerOut {z : ℤ} {c : Char} (h : c ∈ integerOut z) : c = '-' ∨ c.isDigit = true := by
  unfold integerOut at h
  split_ifs at h
  · rcases List.mem_cons.1 h with h | h
    · exact Or.inl h
    · exact Or.inr (Nat.isDigit_of_mem_toDigits (by decide) (by decide) h)
  · exact Or.inr (Nat.isDigit_of_mem_toDigits (by decide) (by decide) h)

theorem isspace_of_digit {c : Char} (h : c.isDigit = true) : isspace c = false := by
  have hb := isDigit_bounds h
  have hspace : c ≠ ' ' := by rintro rfl; exact absurd h (by decide)
  have hle : ¬ c ≤ '\r' := fun hle => by
    have h13 : c.toNat ≤ 13 := hle
    omega
  simp [isspace, hspace, hle]

theorem signed_digits {s : List Char} (h : ∀ c ∈ s, c.isDigit = true) :
    signed s = (digits s).map fun n : ℕ => (n : ℤ) := by
  cases s with
  | nil => rfl
  | cons c s =>
    have hc := h c List.mem_cons_self
    have hminus : c ≠ '-' := by rintro rfl; exact absurd hc (by decide)
    have hplus : c ≠ '+' := by rintro rfl; exact absurd hc (by decide)
    unfold signed
    split
    · rename_i heq
      exact absurd (List.cons.inj heq).1 hminus
    · rename_i heq
      exact absurd (List.cons.inj heq).1 hplus
    · rfl

theorem signed_integerOut (z : ℤ) : signed (integerOut z) = some z := by
  unfold integerOut
  split_ifs with hz
  · rw [signed, digits_toDigits, Option.map_some]
    congr 1
    omega
  · rw [signed_digits fun c hc => Nat.isDigit_of_mem_toDigits (by decide) (by decide) hc, digits_toDigits,
      Option.map_some]
    congr 1
    omega

/-- an integer of the type is read back -/
theorem integerIn_integerOut {lo hi z : ℤ} (h : lo ≤ z ∧ z ≤ hi) : integerIn lo hi (integerOut z) = some z := by
  have hspace : ∀ c ∈ integerOut z, isspace c = false := by
    intro c hc
    rcases mem_integerOut hc with rfl | hd
    · decide
    · exact isspace_of_digit hd
  rw [integerIn, trim_of_forall hspace, signed_integerOut, Option.filter_some, if_pos (by simpa using h)]

theorem nul_integerOut (z : ℤ) : '\x00' ∉ integerOut z := by
  intro h
  rcases mem_integerOut h with h | h
  · cases h
  · exact absurd h (by decide)

def integer (lo hi : ℤ) : Codec ℤ where
  print := integerOut
  read := integerIn lo hi
  valid z := decide (lo ≤ z ∧ z ≤ hi)
  read_print _ h := integerIn_integerOut (of_decide_eq_true h)
  no_nul z _ := nul_integerOut z

def bigint : Codec ℤ := integer (-2 ^ 63) (2 ^ 63 - 1)

def int : Codec ℤ := integer (-2 ^ 31) (2 ^ 31 - 1)

def smallint : Codec Int16 where
  print i := integerOut i.toInt
  read s := (integerIn (-2 ^ 15) (2 ^ 15 - 1) s).map Int16.ofInt
  valid _ := true
  read_print i _ := by
    have hbounds : (-2 ^ 15 : ℤ) ≤ i.toInt ∧ i.toInt ≤ 2 ^ 15 - 1 := ⟨i.le_toInt, by have := i.toInt_lt; omega⟩
    rw [integerIn_integerOut hbounds, Option.map_some, Int16.ofInt_toInt]
  no_nul i _ := nul_integerOut i.toInt

/-- any spelling of true, yes, on, false, no, off that says which, and 1 and 0 -/
def booleanIn (s : List Char) : Option Bool :=
  let t := (trim s).map Char.toLower
  if t = [] then none
  else if t.isPrefixOf "true".toList || t.isPrefixOf "yes".toList || t = "on".toList || t = ['1'] then some true
  else if t.isPrefixOf "false".toList || t.isPrefixOf "no".toList || t = "of".toList || t = "off".toList || t = ['0']
  then some false
  else none

def booleanOut (b : Bool) : List Char := if b then ['t'] else ['f']

def boolean : Codec Bool where
  print := booleanOut
  read := booleanIn
  valid _ := true
  read_print b _ := by cases b <;> decide +kernel
  no_nul b _ := by cases b <;> decide

def varchar (n : ℕ) : Codec String where
  print s := s.toList
  read s := Text.varchar n (String.ofList s)
  valid s := decide (s.toList.length ≤ n ∧ '\x00' ∉ s.toList)
  read_print s h := by
    have hn : s.toList.length ≤ n := (of_decide_eq_true h).1
    rw [String.ofList_toList, Text.varchar_of_le hn]
  no_nul s h := (of_decide_eq_true h).2

/-! ## Columns -/

/-- a column: the text of its value, or NULL -/
structure Field (α : Type) where
  print : α → Option (List Char)
  read : Option (List Char) → Option α
  valid : α → Bool
  read_print : ∀ a, valid a = true → read (print a) = some a
  no_nul : ∀ a, valid a = true → ∀ s ∈ print a, '\x00' ∉ s

def notNull {α : Type} (c : Codec α) : Field α where
  print a := some (c.print a)
  read v := v.bind c.read
  valid := c.valid
  read_print a h := c.read_print a h
  no_nul a h := by
    intro s hs
    rw [Option.mem_some_iff] at hs
    exact hs ▸ c.no_nul a h

def nullable {α : Type} (c : Codec α) : Field (Option α) where
  print := Option.map c.print
  read := strict c.read
  valid v := v.all c.valid
  read_print v h := by
    cases v with
    | none => rfl
    | some a => rw [Option.map_some, strict, c.read_print a h, Option.map_some]
  no_nul v h := by
    intro s hs
    obtain ⟨a, ha, rfl⟩ := Option.map_eq_some_iff.1 hs
    exact c.no_nul a (by rw [ha] at h; exact h)

/-- the columns of a table, and the rows they make -/
structure Columns (R : Type) where
  print : R → List (Option (List Char))
  read : List (Option (List Char)) → Option R
  valid : R → Bool
  read_print : ∀ r, valid r = true → read (print r) = some r
  no_nul : ∀ r, valid r = true → ∀ v ∈ print r, ∀ s ∈ v, '\x00' ∉ s
  print_ne_nil : ∀ r, print r ≠ []

namespace Columns

/-- one column -/
def one {α : Type} (f : Field α) : Columns α where
  print a := [f.print a]
  read
    | [v] => f.read v
    | _ => none
  valid := f.valid
  read_print a h := f.read_print a h
  no_nul a h := by
    intro v hv
    rw [List.mem_singleton] at hv
    exact hv ▸ f.no_nul a h
  print_ne_nil _ := List.cons_ne_nil _ _

/-- a column before others -/
def cons {α R : Type} (f : Field α) (c : Columns R) : Columns (α × R) where
  print r := f.print r.1 :: c.print r.2
  read
    | [] => none
    | v :: vs => (f.read v).bind fun a => (c.read vs).map fun r => (a, r)
  valid r := f.valid r.1 && c.valid r.2
  read_print r h := by
    obtain ⟨hf, hc⟩ := Bool.and_eq_true_iff.1 h
    simp only [f.read_print r.1 hf, c.read_print r.2 hc, Option.bind_some, Option.map_some]
  no_nul r h := by
    obtain ⟨hf, hc⟩ := Bool.and_eq_true_iff.1 h
    intro v hv
    rcases List.mem_cons.1 hv with rfl | hv
    · exact f.no_nul r.1 hf
    · exact c.no_nul r.2 hc v hv
  print_ne_nil _ := List.cons_ne_nil _ _

/-- the same columns for a structure -/
def iso {R S : Type} (c : Columns R) (get : S → R) (mk : R → S) (h : ∀ s, mk (get s) = s) : Columns S where
  print s := c.print (get s)
  read vs := (c.read vs).map mk
  valid s := c.valid (get s)
  read_print s hs := by rw [c.read_print (get s) hs, Option.map_some, h]
  no_nul s hs := c.no_nul (get s) hs
  print_ne_nil s := c.print_ne_nil (get s)

end Columns

/-- a column's characters, when its bytes are UTF-8 without U+0000 -/
def text (bytes : List UInt8) : Option (List Char) :=
  (bytes.toByteArray.utf8Decode?.map Array.toList).filter fun s => decide ('\x00' ∉ s)

theorem text_encode {s : List Char} (h : '\x00' ∉ s) : text (encode s) = some s := by
  have hdec : (encode s).toByteArray.utf8Decode? = some s.toArray := List.utf8Decode?_utf8Encode
  rw [text, hdec, Option.map_some, Option.filter_some, if_pos (by simpa using h)]

section
variable {R : Type} (c : Columns R)

/-- COPY of a table to a text -/
def Columns.copyOut (rows : List R) : List Char := CopyOut.copyOut (rows.map c.print)

/-- COPY of a text into a table: its rows, or an error -/
def Columns.copyIn (block : List Char) : Option (List R) :=
  (decode block).bind fun rows => rows.mapM fun row => (row.mapM (strict text)).bind c.read

theorem texts_encode {row : List (Option (List Char))} (h : ∀ v ∈ row, ∀ s ∈ v, '\x00' ∉ s) :
    (row.map fun v => v.map encode).mapM (strict text) = some row := by
  rw [mapM_eq_some, List.forall₂_map_left_iff]
  refine List.forall₂_same.2 fun v hv => ?_
  cases v with
  | none => rfl
  | some s => rw [Option.map_some, strict, text_encode (h _ hv s rfl), Option.map_some]

/-- **A table is read back as it was printed.** -/
theorem copyIn_copyOut {rows : List R} (h : ∀ r ∈ rows, c.valid r = true) : c.copyIn (c.copyOut rows) = some rows := by
  have hne : ∀ row ∈ rows.map c.print, row ≠ [] := by
    intro row hrow
    obtain ⟨r, -, rfl⟩ := List.mem_map.1 hrow
    exact c.print_ne_nil r
  rw [Columns.copyIn, Columns.copyOut, decode_copyOut hne, Option.bind_some, mapM_eq_some, List.forall₂_map_left_iff,
    List.forall₂_map_left_iff]
  refine List.forall₂_same.2 fun r hr => ?_
  rw [texts_encode (c.no_nul r (h r hr)), Option.bind_some, c.read_print r (h r hr)]

end

end IconSetup.CopyOut
