/-
COPY's text format, as PostgreSQL reads it. A newline ends a row and a tab a column, unless a backslash stands before
it: a backslash takes the next character with it. A column that is exactly `\N` is NULL. In any other, a backslash
with b, f, n, r, t or v is a control character, with up to three octal digits or with x and up to two hexadecimal
digits the byte of that code, and with anything else that character. A carriage return that is not escaped and `\.`
are refused. A column's value is the sequence of its bytes in UTF-8; that it is valid UTF-8 is not checked here.

- `pieces_append`: an unescaped separator cuts.
- `unescape_plain`: a column without backslashes is read as it is; `unescape_length`: with one it gets shorter;
  `unescapeFrom_tabs`: no tab gets lost.
- `cut_of_reads`: a row whose columns are read as NULL or as their own texts was cut where it was joined
  (`eq_of_joined` on the way: each field has no more separators than its partner).
- `decode_printed`: rows without newlines that do not end in a backslash are cut as they were printed.
- `clean_of_reads`: fields printed without escaping that are read back as NULL or as they are, are clean.
-/
import Mathlib.Tactic

namespace IconSetup.CopyText

/-! ## Rows and columns -/

/-- the texts between unescaped separators; `esc` when a backslash stands before the text -/
def piecesFrom (sep : Char) : Bool → List Char → List (List Char)
  | _, [] => [[]]
  | true, c :: s => (piecesFrom sep false s).modifyHead (c :: ·)
  | false, c :: s =>
    if c = sep then [] :: piecesFrom sep false s else (piecesFrom sep (c = '\\') s).modifyHead (c :: ·)

def pieces (sep : Char) (s : List Char) : List (List Char) := piecesFrom sep false s

/-- whether the text ends in a backslash that is not escaped itself -/
def escEnd : Bool → List Char → Bool
  | esc, [] => esc
  | true, _ :: s => escEnd false s
  | false, c :: s => escEnd (c = '\\') s

/-- no carriage return that is not escaped, and no `\.` -/
def legalFrom : Bool → List Char → Bool
  | _, [] => true
  | true, c :: s => c ≠ '.' && legalFrom false s
  | false, c :: s => c ≠ '\r' && legalFrom (c = '\\') s

def legal (s : List Char) : Bool := legalFrom false s

/-- the texts with separators between them -/
def joined (sep : Char) : List (List Char) → List Char
  | [] => []
  | [x] => x
  | x :: y :: rest => x ++ sep :: joined sep (y :: rest)

theorem piecesFrom_ne_nil (sep : Char) (esc : Bool) (s : List Char) : piecesFrom sep esc s ≠ [] := by
  induction s generalizing esc with
  | nil => simp [piecesFrom]
  | cons c s ih =>
    cases esc with
    | true => simpa [piecesFrom, List.modifyHead_eq_nil_iff] using ih false
    | false =>
      simp only [piecesFrom]
      split_ifs
      · exact List.cons_ne_nil _ _
      · simpa [List.modifyHead_eq_nil_iff] using ih (c = '\\')

theorem modifyHead_append {α : Type} (f : α → α) {l : List α} (h : l ≠ []) (r : List α) :
    (l ++ r).modifyHead f = l.modifyHead f ++ r := by
  cases l with
  | nil => exact absurd rfl h
  | cons a l => rfl

theorem piecesFrom_append (sep : Char) (hsep : sep ≠ '\\') (esc : Bool) (x y : List Char)
    (h : escEnd esc x = false) : piecesFrom sep esc (x ++ sep :: y) = piecesFrom sep esc x ++ pieces sep y := by
  induction x generalizing esc with
  | nil =>
    simp only [escEnd] at h
    subst h
    simp [piecesFrom, pieces]
  | cons c x ih =>
    cases esc with
    | true =>
      simp only [escEnd] at h
      simp only [List.cons_append, piecesFrom, ih false h]
      exact modifyHead_append _ (piecesFrom_ne_nil _ _ _) _
    | false =>
      simp only [escEnd] at h
      simp only [List.cons_append, piecesFrom]
      split_ifs with hc
      · rw [hc, decide_eq_false hsep] at h
        rw [ih false h, List.cons_append]
      · rw [ih _ h]
        exact modifyHead_append _ (piecesFrom_ne_nil _ _ _) _

/-- an unescaped separator cuts -/
theorem pieces_append {sep : Char} (hsep : sep ≠ '\\') {x : List Char} (y : List Char) (h : escEnd false x = false) :
    pieces sep (x ++ sep :: y) = pieces sep x ++ pieces sep y :=
  piecesFrom_append sep hsep false x y h

theorem joined_cons (sep : Char) (x : List Char) {rest : List (List Char)} (h : rest ≠ []) :
    joined sep (x :: rest) = x ++ sep :: joined sep rest := by
  cases rest with
  | nil => exact absurd rfl h
  | cons y rest => rfl

theorem joined_modifyHead (sep c : Char) {l : List (List Char)} (h : l ≠ []) :
    joined sep (l.modifyHead (c :: ·)) = c :: joined sep l := by
  cases l with
  | nil => exact absurd rfl h
  | cons x rest =>
    cases rest with
    | nil => rfl
    | cons y rest => rfl

theorem joined_piecesFrom (sep : Char) (esc : Bool) (s : List Char) : joined sep (piecesFrom sep esc s) = s := by
  induction s generalizing esc with
  | nil => rfl
  | cons c s ih =>
    cases esc with
    | true =>
      rw [piecesFrom, joined_modifyHead sep c (piecesFrom_ne_nil _ _ _), ih]
    | false =>
      simp only [piecesFrom]
      split_ifs with hc
      · rw [joined_cons sep [] (piecesFrom_ne_nil _ _ _), ih, hc]
        rfl
      · rw [joined_modifyHead sep c (piecesFrom_ne_nil _ _ _), ih]

/-- the pieces joined again are the text -/
theorem joined_pieces (sep : Char) (s : List Char) : joined sep (pieces sep s) = s := joined_piecesFrom sep false s

theorem mem_joined {sep c : Char} {l : List (List Char)} (h : c ∈ joined sep l) : c = sep ∨ ∃ x ∈ l, c ∈ x := by
  induction l with
  | nil => cases h
  | cons x l ih =>
    by_cases hl : l = []
    · rw [hl] at h
      exact Or.inr ⟨x, List.mem_cons_self, h⟩
    · rw [joined_cons sep x hl, List.mem_append, List.mem_cons] at h
      rcases h with h | h | h
      · exact Or.inr ⟨x, List.mem_cons_self, h⟩
      · exact Or.inl h
      · rcases ih h with h | ⟨y, hy, h⟩
        · exact Or.inl h
        · exact Or.inr ⟨y, List.mem_cons_of_mem x hy, h⟩

theorem joined_append (sep : Char) {a b : List (List Char)} (ha : a ≠ []) (hb : b ≠ []) :
    joined sep (a ++ b) = joined sep a ++ sep :: joined sep b := by
  induction a with
  | nil => exact absurd rfl ha
  | cons x a ih =>
    cases a with
    | nil => exact joined_cons sep x hb
    | cons y a =>
      rw [List.cons_append, joined_cons sep x (by simp), ih (List.cons_ne_nil _ _), joined_cons sep x (by simp),
        List.append_assoc]
      rfl

/-- what follows a separator is scanned from its own start -/
theorem escEnd_append {sep : Char} (hsep : sep ≠ '\\') (esc : Bool) (x y : List Char) :
    escEnd esc (x ++ sep :: y) = escEnd false y := by
  induction x generalizing esc with
  | nil => cases esc <;> simp [escEnd, hsep]
  | cons c x ih => cases esc <;> simp only [List.cons_append, escEnd, ih]

theorem legalFrom_append {sep : Char} (hsep : sep ≠ '\\') (hcr : sep ≠ '\r') (esc : Bool) (x y : List Char)
    (h : escEnd esc x = false) : legalFrom esc (x ++ sep :: y) = (legalFrom esc x && legal y) := by
  induction x generalizing esc with
  | nil =>
    simp only [escEnd] at h
    subst h
    simp [legalFrom, legal, hsep, hcr]
  | cons c x ih =>
    cases esc with
    | true =>
      simp only [escEnd] at h
      simp only [List.cons_append, legalFrom, ih false h, Bool.and_assoc]
    | false =>
      simp only [escEnd] at h
      simp only [List.cons_append, legalFrom, ih _ h, Bool.and_assoc]

theorem escEnd_plain {x : List Char} (h : '\\' ∉ x) : escEnd false x = false := by
  induction x with
  | nil => rfl
  | cons c x ih =>
    rw [List.mem_cons, not_or] at h
    rw [escEnd, decide_eq_false (Ne.symm h.1)]
    exact ih h.2

theorem piecesFrom_of_not_mem {sep : Char} {x : List Char} (esc : Bool) (hs : sep ∉ x) :
    piecesFrom sep esc x = [x] := by
  induction x generalizing esc with
  | nil => cases esc <;> rfl
  | cons c x ih =>
    rw [List.mem_cons, not_or] at hs
    cases esc with
    | true =>
      rw [piecesFrom, ih false hs.2]
      rfl
    | false =>
      rw [piecesFrom, if_neg (Ne.symm hs.1), ih _ hs.2]
      rfl

theorem pieces_of_not_mem {sep : Char} {x : List Char} (hs : sep ∉ x) : pieces sep x = [x] :=
  piecesFrom_of_not_mem false hs

theorem legal_plain {x : List Char} (h : '\\' ∉ x) : legal x = true ↔ '\r' ∉ x := by
  induction x with
  | nil => simp [legal, legalFrom]
  | cons c x ih =>
    rw [List.mem_cons, not_or] at h
    have hx : legalFrom false x = true ↔ '\r' ∉ x := ih h.2
    rw [legal, legalFrom, decide_eq_false (Ne.symm h.1), Bool.and_eq_true, hx, List.mem_cons, not_or,
      decide_eq_true_eq, ne_comm]

/-- where a separator in a piece comes with a backslash; a piece after a backslash is judged from its second
character on -/
def Marked (sep : Char) : Bool → List Char → Prop
  | true, r => '\\' ∉ r.tail → sep ∉ r.tail
  | false, r => '\\' ∉ r → sep ∉ r

theorem marked_pieces (sep : Char) (esc : Bool) (s : List Char) :
    ∃ h t, piecesFrom sep esc s = h :: t ∧ Marked sep esc h ∧ ∀ r ∈ t, Marked sep false r := by
  induction s generalizing esc with
  | nil => exact ⟨[], [], rfl, by cases esc <;> simp [Marked], by simp⟩
  | cons c s ih =>
    cases esc with
    | true =>
      obtain ⟨h, t, he, hh, ht⟩ := ih false
      exact ⟨c :: h, t, by rw [piecesFrom, he]; rfl, hh, ht⟩
    | false =>
      by_cases hc : c = sep
      · obtain ⟨h, t, he, hh, ht⟩ := ih false
        refine ⟨[], h :: t, by rw [piecesFrom, if_pos hc, he], by simp [Marked], fun r hr => ?_⟩
        rcases List.mem_cons.1 hr with rfl | hr
        · exact hh
        · exact ht r hr
      · obtain ⟨h, t, he, hh, ht⟩ := ih (c = '\\')
        refine ⟨c :: h, t, by rw [piecesFrom, if_neg hc, he]; rfl, fun hb => ?_, ht⟩
        rw [List.mem_cons, not_or] at hb ⊢
        rw [decide_eq_false (Ne.symm hb.1)] at hh
        exact ⟨Ne.symm hc, hh hb.2⟩

/-- a piece with a separator in it has a backslash in it -/
theorem mem_pieces {sep : Char} {s r : List Char} (hr : r ∈ pieces sep s) (hb : '\\' ∉ r) : sep ∉ r := by
  obtain ⟨h, t, he, hh, ht⟩ := marked_pieces sep false s
  rw [pieces, he] at hr
  rcases List.mem_cons.1 hr with rfl | hr
  · exact hh hb
  · exact ht r hr hb

/-! ## Escapes -/

def encode (s : List Char) : List UInt8 := s.flatMap String.utf8EncodeChar

/-- within an escape: `octal` after one digit and up to two more, `hex` after the x and its first digit -/
inductive Esc where
  | plain
  | backslash
  | octal (more value : ℕ)
  | x
  | hex (value : ℕ)
deriving DecidableEq, Repr

def octalDigit (c : Char) : Option ℕ := if '0' ≤ c ∧ c ≤ '7' then some (c.toNat - '0'.toNat) else none

def hexDigit (c : Char) : Option ℕ :=
  if '0' ≤ c ∧ c ≤ '9' then some (c.toNat - '0'.toNat)
  else if 'a' ≤ c ∧ c ≤ 'f' then some (c.toNat - 'a'.toNat + 10)
  else if 'A' ≤ c ∧ c ≤ 'F' then some (c.toNat - 'A'.toNat + 10)
  else none

def plainStep (c : Char) : Esc × List UInt8 := if c = '\\' then (.backslash, []) else (.plain, String.utf8EncodeChar c)

/-- a character after a backslash -/
def backslashStep (c : Char) : Esc × List UInt8 :=
  match octalDigit c with
  | some d => (.octal 0 d, [])
  | none =>
    if c = 'x' then (.x, [])
    else if c = 'b' then (.plain, [8])
    else if c = 'f' then (.plain, [12])
    else if c = 'n' then (.plain, [10])
    else if c = 'r' then (.plain, [13])
    else if c = 't' then (.plain, [9])
    else if c = 'v' then (.plain, [11])
    else (.plain, String.utf8EncodeChar c)

def escStep : Esc → Char → Esc × List UInt8
  | .plain, c => plainStep c
  | .backslash, c => backslashStep c
  | .octal more value, c =>
    match octalDigit c with
    | some d =>
      if more < 2 then (.octal (more + 1) (8 * value + d), [])
      else ((plainStep c).1, UInt8.ofNat value :: (plainStep c).2)
    | none => ((plainStep c).1, UInt8.ofNat value :: (plainStep c).2)
  | .x, c =>
    match hexDigit c with
    | some d => (.hex d, [])
    -- without a digit the x stands for itself
    | none => ((plainStep c).1, 120 :: (plainStep c).2)
  | .hex value, c =>
    match hexDigit c with
    | some d => (.plain, [UInt8.ofNat (16 * value + d)])
    | none => ((plainStep c).1, UInt8.ofNat value :: (plainStep c).2)

/-- at the end of the column -/
def escFinish : Esc → List UInt8
  | .plain => []
  | .backslash => []
  | .octal _ value => [UInt8.ofNat value]
  | .x => [120]
  | .hex value => [UInt8.ofNat value]

def unescapeFrom : Esc → List Char → List UInt8
  | st, [] => escFinish st
  | st, c :: s => (escStep st c).2 ++ unescapeFrom (escStep st c).1 s

def unescape (s : List Char) : List UInt8 := unescapeFrom .plain s

/-- the value of a column; `none` is NULL -/
def column (raw : List Char) : Option (List UInt8) := if raw = ['\\', 'N'] then none else some (unescape raw)

/-- the rows of the data up to its end marker; `none` when it is refused -/
def decode (block : List Char) : Option (List (List (Option (List UInt8)))) :=
  if (pieces '\n' block).getLast? = some [] ∧ legal block = true then
    some ((pieces '\n' block).dropLast.map fun row => (pieces '\t' row).map column)
  else none

theorem encode_cons (c : Char) (s : List Char) : encode (c :: s) = String.utf8EncodeChar c ++ encode s := rfl

theorem encode_backslash : String.utf8EncodeChar '\\' = [92] := by decide

theorem encode_tab : String.utf8EncodeChar '\t' = [9] := by decide

/-- a character's bytes hold a tab only if it is one -/
theorem tab_encode {c : Char} (hc : c ≠ '\t') : 9 ∉ String.utf8EncodeChar c := by
  have hv : c.val.toNat ≠ 9 := fun he => hc (Char.ext (UInt32.toNat_inj.1 he))
  have hbyte : ∀ n : ℕ, (9 : UInt8) = UInt8.ofNat n → n % 256 = 9 := fun n h => by
    have := congrArg UInt8.toNat h
    simpa using this.symm
  intro hm
  unfold String.utf8EncodeChar at hm
  simp only [] at hm
  split_ifs at hm with h1 h2 h3 <;> simp only [List.mem_cons, List.not_mem_nil, or_false] at hm
  · have := hbyte _ hm
    omega
  · rcases hm with hm | hm <;> have := hbyte _ hm <;> omega
  · rcases hm with hm | hm | hm <;> have := hbyte _ hm <;> omega
  · rcases hm with hm | hm | hm | hm <;> have := hbyte _ hm <;> omega

theorem count_tab_encode (s : List Char) : (encode s).count 9 = s.count '\t' := by
  induction s with
  | nil => rfl
  | cons c s ih =>
    rw [encode_cons, List.count_append, ih]
    by_cases hc : c = '\t'
    · rw [hc, encode_tab, List.count_cons_self, List.count_cons_self, Nat.add_comm]
      rfl
    · rw [List.count_eq_zero_of_not_mem (tab_encode hc), List.count_cons_of_ne hc, Nat.zero_add]

theorem encode_length_pos (c : Char) : 1 ≤ (String.utf8EncodeChar c).length :=
  List.length_pos_iff.2 String.utf8EncodeChar_ne_nil

theorem plainStep_of_ne {c : Char} (hc : c ≠ '\\') : plainStep c = (.plain, String.utf8EncodeChar c) := if_neg hc

/-- without a backslash, a column is read as it is -/
theorem unescape_plain {s : List Char} (h : '\\' ∉ s) : unescape s = encode s := by
  induction s with
  | nil => rfl
  | cons c s ih =>
    rw [List.mem_cons, not_or] at h
    rw [unescape, unescapeFrom, escStep, plainStep_of_ne (Ne.symm h.1), encode_cons]
    exact congrArg (String.utf8EncodeChar c ++ ·) (ih h.2)

/-- bytes that an escape may still give without taking another character -/
def slack : Esc → ℕ
  | .plain => 0
  | .backslash => 0
  | .octal more _ => more + 1
  | .x => 1
  | .hex _ => 2

theorem plainStep_length (c : Char) :
    (plainStep c).2.length + slack (plainStep c).1 ≤ (String.utf8EncodeChar c).length := by
  unfold plainStep
  split_ifs
  · exact Nat.zero_le _
  · exact le_rfl

theorem escStep_length (st : Esc) (c : Char) :
    (escStep st c).2.length + slack (escStep st c).1 ≤ (String.utf8EncodeChar c).length + slack st := by
  have hpos := encode_length_pos c
  have hplain := plainStep_length c
  have hflush : ∀ (b : UInt8) (st : Esc), 1 ≤ slack st →
      (b :: (plainStep c).2).length + slack (plainStep c).1 ≤ (String.utf8EncodeChar c).length + slack st := by
    intro b st hst
    rw [List.length_cons]
    omega
  cases st with
  | plain => exact hplain
  | backslash =>
    simp only [escStep, backslashStep]
    split
    · exact hpos
    · split_ifs
      all_goals first | exact hpos | exact le_rfl
  | octal more value =>
    simp only [escStep]
    split
    · split_ifs
      · rw [List.length_nil]
        change 0 + (more + 1 + 1) ≤ _ + (more + 1)
        omega
      · exact hflush _ _ (Nat.succ_pos more)
    · exact hflush _ _ (Nat.succ_pos more)
  | x =>
    simp only [escStep]
    split
    · rw [List.length_nil]
      change 0 + 2 ≤ _ + 1
      omega
    · exact hflush _ _ le_rfl
  | hex value =>
    simp only [escStep]
    split
    · change 1 + 0 ≤ _ + 2
      omega
    · exact hflush _ _ one_le_two

theorem unescapeFrom_length (st : Esc) (s : List Char) :
    (unescapeFrom st s).length ≤ (encode s).length + slack st := by
  induction s generalizing st with
  | nil =>
    rw [unescapeFrom]
    cases st with
    | plain => exact le_rfl
    | backslash => exact le_rfl
    | octal more value => exact Nat.succ_le_succ (Nat.zero_le _)
    | x => exact le_rfl
    | hex value => exact one_le_two
  | cons c s ih =>
    have hstep := escStep_length st c
    have hrest := ih (escStep st c).1
    rw [unescapeFrom, encode_cons, List.length_append, List.length_append]
    omega

/-- a column with a backslash gets shorter -/
theorem unescape_length {s : List Char} (h : '\\' ∈ s) : (unescape s).length < (encode s).length := by
  induction s with
  | nil => cases h
  | cons c s ih =>
    rw [unescape, unescapeFrom, escStep, encode_cons, List.length_append, List.length_append]
    by_cases hc : c = '\\'
    · have hrest := unescapeFrom_length .backslash s
      rw [hc, encode_backslash]
      simp only [plainStep, if_true, List.length_nil, List.length_singleton, slack] at hrest ⊢
      omega
    · have hs := ih ((List.mem_cons.1 h).resolve_left fun he => hc he.symm)
      rw [plainStep_of_ne hc]
      exact Nat.add_lt_add_left hs _

theorem escStep_tab (st : Esc) : 1 ≤ (escStep st '\t').2.count 9 := by
  have hplain : (plainStep '\t').2 = [9] := by decide
  have hoct : octalDigit '\t' = none := by decide
  have hhex : hexDigit '\t' = none := by decide
  cases st with
  | plain => rw [escStep, hplain]; decide
  | backslash => decide
  | octal more value =>
    simp only [escStep, hoct, hplain]
    rw [List.one_le_count_iff]
    exact List.mem_cons_of_mem _ (List.mem_singleton.2 rfl)
  | x =>
    simp only [escStep, hhex, hplain]
    decide
  | hex value =>
    simp only [escStep, hhex, hplain]
    rw [List.one_le_count_iff]
    exact List.mem_cons_of_mem _ (List.mem_singleton.2 rfl)

/-- no tab gets lost -/
theorem unescapeFrom_tabs (st : Esc) (s : List Char) : s.count '\t' ≤ (unescapeFrom st s).count 9 := by
  induction s generalizing st with
  | nil => exact Nat.zero_le _
  | cons c s ih =>
    have hrest := ih (escStep st c).1
    rw [unescapeFrom, List.count_append]
    by_cases hc : c = '\t'
    · have hstep := escStep_tab st
      rw [hc] at hrest ⊢
      rw [List.count_cons_self]
      omega
    · rw [List.count_cons_of_ne hc]
      omega

/-! ## Fields printed without escaping -/

/-- what a column may hold that stands for `text`: NULL, or the text -/
def Reads (text : Option (List Char)) (value : Option (List UInt8)) : Prop :=
  value = none ∨ ∃ t ∈ text, value = some (encode t)

instance (text : Option (List Char)) (value : Option (List UInt8)) : Decidable (Reads text value) := by
  unfold Reads; infer_instance

/-- a field that COPY reads as it is, or as NULL -/
def Clean (f : List Char) : Prop := f = ['\\', 'N'] ∨ ('\t' ∉ f ∧ '\\' ∉ f ∧ '\r' ∉ f)

instance (f : List Char) : Decidable (Clean f) := by unfold Clean; infer_instance

theorem column_null : column ['\\', 'N'] = none := rfl

theorem column_eq_none {raw : List Char} (h : column raw = none) : raw = ['\\', 'N'] := by
  unfold column at h
  split_ifs at h with hn
  exact hn

theorem column_plain {f : List Char} (h : '\\' ∉ f) : column f = some (encode f) := by
  have hf : f ≠ ['\\', 'N'] := fun he => h (he ▸ List.mem_cons_self)
  rw [column, if_neg hf, unescape_plain h]

/-- only a column without backslashes is read as it is -/
theorem column_eq_encode {f : List Char} (h : column f = some (encode f)) : '\\' ∉ f := by
  intro hb
  unfold column at h
  split_ifs at h
  rw [Option.some.injEq] at h
  have hlen := unescape_length hb
  rw [h] at hlen
  exact lt_irrefl _ hlen

/-- a raw column has no more tabs than what it is read as -/
theorem reads_tabs {text : Option (List Char)} {raw : List Char} {n : ℕ} (h : Reads text (column raw))
    (hn : ∀ t ∈ text, t.count '\t' ≤ n) : raw.count '\t' ≤ n := by
  rcases h with h | ⟨t, ht, h⟩
  · rw [column_eq_none h, show List.count '\t' ['\\', 'N'] = 0 by decide]
    exact Nat.zero_le n
  · unfold column at h
    split_ifs at h
    rw [Option.some.injEq] at h
    have htab := unescapeFrom_tabs .plain raw
    rw [show unescapeFrom .plain raw = encode t from h, count_tab_encode] at htab
    exact htab.trans (hn t ht)

theorem count_joined (sep : Char) {l : List (List Char)} (h : l ≠ []) :
    (joined sep l).count sep + 1 = (l.map (List.count sep)).sum + l.length := by
  induction l with
  | nil => exact absurd rfl h
  | cons x l ih =>
    cases l with
    | nil => simp [joined]
    | cons y l =>
      have hl := ih (List.cons_ne_nil y l)
      rw [joined_cons sep x (List.cons_ne_nil y l), List.count_append, List.count_cons_self, List.map_cons,
        List.sum_cons, List.length_cons]
      omega

/-- no text of the second list has more separators in it than its partner in the first -/
def Dominates (sep : Char) (fs rs : List (List Char)) : Prop :=
  List.Forall₂ (fun f r => List.count sep r ≤ List.count sep f) fs rs

theorem sum_count_le {sep : Char} {fs rs : List (List Char)} (h : Dominates sep fs rs) :
    (rs.map (List.count sep)).sum ≤ (fs.map (List.count sep)).sum := by
  refine List.Forall₂.sum_le_sum ?_
  rw [List.forall₂_map_left_iff, List.forall₂_map_right_iff]
  exact h.flip

theorem eq_of_joined_of_dominates {sep : Char} {fs rs : List (List Char)} (h : Dominates sep fs rs)
    (hj : joined sep fs = joined sep rs) : fs = rs := by
  induction h with
  | nil => rfl
  | @cons f r fs rs hfr hrest ih =>
    by_cases hfs : fs = []
    · subst hfs
      cases hrest
      rw [show f = r from hj]
    · have hrs : rs ≠ [] := fun he => hfs (List.length_eq_zero_iff.1 (by rw [hrest.length_eq, he]; rfl))
      have hcount : (joined sep rs).count sep ≤ (joined sep fs).count sep := by
        have hsum := sum_count_le hrest
        have hf := count_joined sep hfs
        have hr := count_joined sep hrs
        have hlen := hrest.length_eq
        omega
      rw [joined_cons sep f hfs, joined_cons sep r hrs] at hj
      -- where the two first fields end differently, the longer one has a separator too many
      rcases List.append_eq_append_iff.1 hj with ⟨u, hr, hu⟩ | ⟨u, hf, hu⟩
      · cases u with
        | nil =>
          rw [List.append_nil] at hr
          rw [List.nil_append, List.cons.injEq] at hu
          rw [hr, ih hu.2]
        | cons c u =>
          rw [List.cons_append, List.cons.injEq] at hu
          rw [hr, ← hu.1, List.count_append, List.count_cons_self] at hfr
          omega
      · cases u with
        | nil =>
          rw [List.append_nil] at hf
          rw [List.nil_append, List.cons.injEq] at hu
          rw [hf, ih hu.2.symm]
        | cons c u =>
          rw [List.cons_append, List.cons.injEq] at hu
          rw [hu.2, List.count_append, List.count_cons_self] at hcount
          omega

/-- **Two lists of fields with one joined text are equal, when each field of the second has its own partner in the
first, in the same order, and no more separators than its partner.** -/
theorem eq_of_joined {sep : Char} {fs gs rs : List (List Char)} (hsub : gs.Sublist fs) (h : Dominates sep gs rs)
    (hrs : rs ≠ []) (hj : joined sep fs = joined sep rs) : fs = rs := by
  have hlen := h.length_eq
  have hfs : fs ≠ [] := by
    intro he
    rw [he, List.sublist_nil] at hsub
    rw [hsub] at hlen
    exact hrs (List.length_eq_zero_iff.1 hlen.symm)
  -- the joined text has as many separators with either list, so the first cannot have more fields
  have hle : fs.length ≤ gs.length := by
    have hsum := sum_count_le h
    have hgs : (gs.map (List.count sep)).sum ≤ (fs.map (List.count sep)).sum :=
      (hsub.map _).sum_le_sum fun n _ => Nat.zero_le n
    have hf := count_joined sep hfs
    have hr := count_joined sep hrs
    rw [hj] at hf
    omega
  rw [hsub.eq_of_length_le hle] at h
  exact eq_of_joined_of_dominates h hj

/-- no text has more tabs than the field that stands for it -/
def NoMoreTabs (fs : List (List Char)) (texts : List (Option (List Char))) : Prop :=
  List.Forall₂ (fun f text => ∀ t ∈ text, List.count '\t' t ≤ List.count '\t' f) fs texts

theorem dominates_of_reads {fs rs : List (List Char)} {texts : List (Option (List Char))} (h : NoMoreTabs fs texts)
    (hread : List.Forall₂ Reads texts (rs.map column)) : Dominates '\t' fs rs := by
  induction h generalizing rs with
  | nil =>
    cases rs with
    | nil => exact List.Forall₂.nil
    | cons r rs => cases hread
  | cons hf _ ih =>
    cases rs with
    | nil => cases hread
    | cons r rs =>
      rcases hread with _ | ⟨hr, hrs⟩
      exact List.Forall₂.cons (reads_tabs hr hf) (ih hrs)

/-- **A row whose columns are read as NULL or as their own texts was cut where it was joined.** The fields `m` in the
middle are known to be cut so, and may stand for any text. -/
theorem cut_of_reads {a m b pa pb : List (List Char)} {ta tm tb : List (Option (List Char))} (hta : NoMoreTabs a ta)
    (htb : NoMoreTabs b tb) (hm : m.length = tm.length) (hpa : pa ≠ []) (hpb : pb ≠ [])
    (hja : joined '\t' a = joined '\t' pa) (hjb : joined '\t' b = joined '\t' pb)
    (hread : List.Forall₂ Reads (ta ++ tm ++ tb) ((pa ++ m ++ pb).map column)) : a = pa ∧ b = pb := by
  have hlena := hta.length_eq
  have hlenb := htb.length_eq
  have hlen := hread.length_eq
  simp only [List.length_append, List.length_map] at hlen
  have hprefix : pa.length ≤ a.length → a = pa := by
    intro hle
    have htake := List.forall₂_take pa.length hread
    rw [← List.map_take, List.append_assoc, List.append_assoc, List.take_left' rfl,
      List.take_append_of_le_length (by omega)] at htake
    exact eq_of_joined (List.take_sublist pa.length a)
      (dominates_of_reads (List.forall₂_take pa.length hta) htake) hpa hja
  have hsuffix : pb.length ≤ b.length → b = pb := by
    intro hle
    have hdrop := List.forall₂_drop (pa ++ m).length hread
    rw [← List.map_drop, List.drop_left' rfl, List.drop_append, List.drop_of_length_le
      (by simp only [List.length_append]; omega), List.nil_append] at hdrop
    exact eq_of_joined (List.drop_sublist ((pa ++ m).length - (ta ++ tm).length) b)
      (dominates_of_reads (List.forall₂_drop ((pa ++ m).length - (ta ++ tm).length) htb) hdrop) hpb hjb
  by_cases hle : pa.length ≤ a.length
  · have ha := hprefix hle
    rw [ha] at hlena
    exact ⟨ha, hsuffix (by omega)⟩
  · have hb := hsuffix (by omega)
    rw [hb] at hlenb
    omega

theorem escEnd_clean {f : List Char} (h : Clean f) : escEnd false f = false := by
  rcases h with h | ⟨-, h, -⟩
  · rw [h]; rfl
  · exact escEnd_plain h

theorem legal_clean {f : List Char} (h : Clean f) : legal f = true := by
  rcases h with h | ⟨-, hb, hr⟩
  · rw [h]; decide
  · exact (legal_plain hb).2 hr

theorem tab_clean {f : List Char} (h : Clean f) : '\t' ∉ f := by
  rcases h with h | ⟨h, -, -⟩
  · rw [h]; decide
  · exact h

theorem escEnd_joined {sep : Char} (hsep : sep ≠ '\\') {fs : List (List Char)} (hne : fs ≠ []) (x : List Char) :
    escEnd false (joined sep (fs ++ [x])) = escEnd false x := by
  rw [joined_append sep hne (List.cons_ne_nil x []), escEnd_append hsep]
  rfl

/-- a separator after fields that do not end in a backslash cuts -/
theorem pieces_joined_append {sep : Char} (hsep : sep ≠ '\\') {a b : List (List Char)} (ha : a ≠ []) (hb : b ≠ [])
    (h : escEnd false (joined sep a) = false) :
    pieces sep (joined sep (a ++ b)) = pieces sep (joined sep a) ++ pieces sep (joined sep b) := by
  rw [joined_append sep ha hb, pieces_append hsep _ h]

/-- fields that do not end in a backslash are cut as they were joined -/
theorem pieces_joined {sep : Char} (hsep : sep ≠ '\\') {fs : List (List Char)} (hne : fs ≠ [])
    (hesc : ∀ f ∈ fs, escEnd false f = false) (hin : ∀ f ∈ fs, sep ∉ f) : pieces sep (joined sep fs) = fs := by
  induction fs with
  | nil => exact absurd rfl hne
  | cons f fs ih =>
    have hf : pieces sep f = [f] := pieces_of_not_mem (hin f List.mem_cons_self)
    by_cases hfs : fs = []
    · rw [hfs]
      exact hf
    · rw [joined_cons sep f hfs, pieces_append hsep _ (hesc f List.mem_cons_self), hf,
        ih hfs (fun g hg => hesc g (List.mem_cons_of_mem f hg)) fun g hg => hin g (List.mem_cons_of_mem f hg)]
      rfl

theorem legal_joined {sep : Char} (hsep : sep ≠ '\\') (hcr : sep ≠ '\r') {fs : List (List Char)}
    (hesc : ∀ f ∈ fs, escEnd false f = false) : legal (joined sep fs) = true ↔ ∀ f ∈ fs, legal f = true := by
  induction fs with
  | nil => exact iff_of_true rfl fun f hf => absurd hf List.not_mem_nil
  | cons f fs ih =>
    rw [List.forall_mem_cons]
    by_cases hfs : fs = []
    · rw [hfs]
      exact (and_iff_left fun g hg => absurd hg List.not_mem_nil).symm
    · rw [joined_cons sep f hfs, legal, legalFrom_append hsep hcr false _ _ (hesc f List.mem_cons_self),
        Bool.and_eq_true, ih fun g hg => hesc g (List.mem_cons_of_mem f hg)]
      rfl

/-- fields that are read back as NULL or as what they were printed from, when each was printed as it is, are clean -/
theorem clean_of_reads {fs : List (List Char)} {texts : List (Option (List Char))}
    (hpieces : pieces '\t' (joined '\t' fs) = fs) (hlegal : legal (joined '\t' fs) = true)
    (htexts : List.Forall₂ (fun f text => f = ['\\', 'N'] ∨ text = some f) fs texts)
    (hread : List.Forall₂ Reads texts (fs.map column)) : ∀ f ∈ fs, Clean f := by
  have hplain : ∀ f ∈ fs, f = ['\\', 'N'] ∨ '\\' ∉ f := by
    rw [List.forall₂_map_right_iff] at hread
    intro f hf
    obtain ⟨i, hi, rfl⟩ := List.getElem_of_mem hf
    have hitexts : i < texts.length := htexts.length_eq ▸ hi
    rcases htexts.get hi hitexts with hnull | htext
    · exact Or.inl hnull
    · rcases hread.get hitexts hi with hnone | ⟨t, ht, hval⟩
      · exact Or.inl (column_eq_none hnone)
      · simp only [List.get_eq_getElem] at htext ht hval
        rw [htext, Option.mem_some_iff] at ht
        rw [← ht] at hval
        exact Or.inr (column_eq_encode hval)
  have hesc : ∀ f ∈ fs, escEnd false f = false := by
    intro f hf
    rcases hplain f hf with h | h
    · rw [h]; rfl
    · exact escEnd_plain h
  rw [legal_joined (by decide) (by decide) hesc] at hlegal
  intro f hf
  rcases hplain f hf with h | h
  · exact Or.inl h
  · exact Or.inr ⟨mem_pieces (hpieces.symm ▸ hf) h, h, (legal_plain h).1 (hlegal f hf)⟩

/-- clean fields are read back as NULL or as what they were printed from -/
theorem reads_of_clean {fs : List (List Char)} {texts : List (Option (List Char))}
    (htexts : List.Forall₂ (fun f text => f = ['\\', 'N'] ∨ text = some f) fs texts) (hclean : ∀ f ∈ fs, Clean f) :
    List.Forall₂ Reads texts (fs.map column) := by
  induction htexts with
  | nil => exact List.Forall₂.nil
  | @cons f text fs texts hf _ ih =>
    rw [List.forall_mem_cons] at hclean
    refine List.Forall₂.cons ?_ (ih hclean.2)
    rcases hclean.1 with hnull | ⟨-, hb, -⟩
    · rw [hnull]
      exact Or.inl column_null
    · have htext : text = some f := hf.resolve_left fun he => hb (he ▸ List.mem_cons_self)
      exact Or.inr ⟨f, htext, column_plain hb⟩

/-! ## Printed rows -/

def printed (rows : List (List Char)) : List Char := rows.flatMap fun row => row ++ ['\n']

theorem printed_cons (row : List Char) (rows : List (List Char)) :
    printed (row :: rows) = row ++ '\n' :: printed rows := by
  rw [printed, List.flatMap_cons, List.append_assoc]
  rfl

theorem pieces_printed {rows : List (List Char)} (hesc : ∀ row ∈ rows, escEnd false row = false)
    (hin : ∀ row ∈ rows, '\n' ∉ row) : pieces '\n' (printed rows) = rows ++ [[]] := by
  induction rows with
  | nil => rfl
  | cons row rows ih =>
    rw [List.forall_mem_cons] at hesc hin
    rw [printed_cons, pieces_append (by decide) _ hesc.1, pieces_of_not_mem hin.1, ih hesc.2 hin.2]
    rfl

theorem legal_printed {rows : List (List Char)} (hesc : ∀ row ∈ rows, escEnd false row = false) :
    legal (printed rows) = true ↔ ∀ row ∈ rows, legal row = true := by
  induction rows with
  | nil => exact iff_of_true rfl fun row hrow => absurd hrow List.not_mem_nil
  | cons row rows ih =>
    rw [List.forall_mem_cons] at hesc ⊢
    rw [printed_cons, legal, legalFrom_append (by decide) (by decide) false _ _ hesc.1, Bool.and_eq_true,
      ← ih hesc.2]
    rfl

/-- rows without newlines that do not end in a backslash are cut as they were printed -/
theorem decode_printed {rows : List (List Char)} (hesc : ∀ row ∈ rows, escEnd false row = false)
    (hin : ∀ row ∈ rows, '\n' ∉ row) :
    decode (printed rows) =
      if ∀ row ∈ rows, legal row = true then some (rows.map fun row => (pieces '\t' row).map column) else none := by
  rw [decode, pieces_printed hesc hin, List.getLast?_concat, List.dropLast_concat]
  exact if_congr (by rw [legal_printed hesc]; exact and_iff_right rfl) rfl rfl

end IconSetup.CopyText
