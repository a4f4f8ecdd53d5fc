/-
The two ways in which `echo` may print an operand with backslashes: as it stands, or with the escapes expanded that the
X/Open System Interfaces give it. The operand is no option.

- `through_plain`: a text without backslashes is printed as it stands, whatever follows it.
- `through_string`: a JSON string is expanded token by token.
- `becomes_text`: in the text of a JSON value nothing but its strings changes.
-/
import Mathlib.Tactic
import IconSetup.Core.JsonTokens
import IconSetup.Core.JsonLayout

namespace IconSetup.Echo

open IconSetup.JsonLex IconSetup.JsonText IconSetup.JsonStrings IconSetup.JsonTokens IconSetup.JsonEqual
open IconSetup.JsonLayout (Additive)

/-! ## Expanding -/

/-- how far an escape has been read; `octal n acc` when up to n digits may follow, with the value so far -/
inductive Esc where
  | plain
  | backslash
  | octal (n acc : ℕ)
deriving DecidableEq, Repr

def xsiEscape (c : Char) : Option Char :=
  if c = 'a' then some '\x07'
  else if c = 'b' then some '\x08'
  else if c = 'f' then some '\x0c'
  else if c = 'n' then some '\n'
  else if c = 'r' then some '\r'
  else if c = 't' then some '\t'
  else if c = 'v' then some '\x0b'
  else if c = '\\' then some '\\'
  else none

/-- a byte -/
def byte (acc : ℕ) : Char := Char.ofNat (acc % 256)

def octalDigit (c : Char) : Option ℕ := if '0' ≤ c ∧ c ≤ '7' then some (c.toNat - '0'.toNat) else none

/-- more text in front of the output -/
def emit (out : Text) (p : Text × Bool) : Text × Bool := (out ++ p.1, p.2)

/-- the output, and whether the end was reached: `\c` stops it -/
def xsi : Esc → Text → Text × Bool
  | .plain, [] => ([], true)
  | .backslash, [] => (['\\'], true)
  | .octal _ acc, [] => ([byte acc], true)
  | .plain, c :: s => if c = '\\' then xsi .backslash s else emit [c] (xsi .plain s)
  | .backslash, c :: s =>
    if c = 'c' then ([], false)
    else if c = '0' then xsi (.octal 3 0) s
    else
      match xsiEscape c with
      | some d => emit [d] (xsi .plain s)
      | none => emit ['\\', c] (xsi .plain s)
  | .octal n acc, c :: s =>
    match octalDigit c, n with
    | some d, n + 1 => xsi (.octal n (8 * acc + d)) s
    | _, _ => emit [byte acc] (if c = '\\' then xsi .backslash s else emit [c] (xsi .plain s))

def expanded (s : Text) : Text := (xsi .plain s).1

inductive Treatment where
  | verbatim
  | expanding
deriving DecidableEq, Repr

/-- `echo operand` -/
def echo (treatment : Treatment) (operand : Text) : Text :=
  match treatment with
  | .verbatim => operand ++ ['\n']
  | .expanding => expanded operand ++ if (xsi .plain operand).2 then ['\n'] else []

/-! ## Texts that are expanded by themselves -/

/-- what follows is expanded as if it stood alone -/
def Through (a : Text) : Prop := ∀ s, xsi .plain (a ++ s) = emit (expanded a) (xsi .plain s)

theorem emit_emit (a b : Text) (p : Text × Bool) : emit a (emit b p) = emit (a ++ b) p := by
  simp [emit]

theorem expanded_append {a : Text} (ha : Through a) (b : Text) : expanded (a ++ b) = expanded a ++ expanded b := by
  rw [expanded, ha]
  rfl

/-- the end is reached -/
theorem through_end {a : Text} (ha : Through a) : xsi .plain a = (expanded a, true) := by
  have h := ha []
  rw [List.append_nil] at h
  rw [h]
  simp [emit, xsi]

theorem through_additive : Additive Through where
  nil _ := rfl
  append := by
    intro a b ha hb s
    rw [List.append_assoc, ha, hb, emit_emit, expanded_append ha]

/-- one step by itself is a step whatever follows -/
theorem through_of {a out : Text} (h : ∀ s, xsi .plain (a ++ s) = emit out (xsi .plain s)) :
    Through a ∧ expanded a = out := by
  have hout : expanded a = out := by
    have hend := h []
    rw [List.append_nil] at hend
    rw [expanded, hend]
    simp [emit, xsi]
  refine ⟨fun s => ?_, hout⟩
  rw [hout]
  exact h s

theorem through_char {c : Char} (hc : c ≠ '\\') : Through [c] ∧ expanded [c] = [c] :=
  through_of fun _ => if_neg hc

/-- **Without backslashes a text is printed as it stands.** -/
theorem through_plain {a : Text} (h : '\\' ∉ a) : Through a ∧ expanded a = a := by
  induction a with
  | nil => exact ⟨through_additive.nil, rfl⟩
  | cons c a ih =>
    have hc : c ≠ '\\' := fun he => h (he ▸ List.mem_cons_self)
    obtain ⟨h1, h2⟩ := ih fun ha => h (List.mem_cons_of_mem c ha)
    obtain ⟨h3, h4⟩ := through_char hc
    refine ⟨through_additive.append (a := [c]) h3 h1, ?_⟩
    have happend := expanded_append h3 a
    rwa [h4, h2] at happend

theorem through_tail {c : Char} {a : Text} (hc : c ≠ '\\') (h : Through (c :: a)) : Through a := by
  obtain ⟨h1, h2⟩ := through_char hc
  have hexpanded : expanded (c :: a) = c :: expanded a := by
    have happend := expanded_append h1 a
    rwa [h2] at happend
  intro s
  have hall := h s
  have hfirst : xsi .plain (c :: a ++ s) = emit [c] (xsi .plain (a ++ s)) := if_neg hc
  rw [hfirst, hexpanded] at hall
  obtain ⟨hout, hend⟩ := Prod.mk.inj hall
  exact Prod.ext (List.cons.inj hout).2 hend

/-! ## JSON strings -/

/-- what a token is expanded to -/
def tokenExpanded : Token → Text
  | .char c => [c]
  | .short c => ((xsiEscape c).map fun d => [d]).getD ['\\', c]
  | .unicode a b c d => ['\\', 'u', a, b, c, d]

theorem hexValue_backslash {c : Char} (h : (hexValue c).isSome) : c ≠ '\\' := by
  rintro rfl
  cases h

theorem through_token {t : Token} (ht : t.Legal) : Through t.text ∧ expanded t.text = tokenExpanded t := by
  cases t with
  | char c => exact through_char ht.2.1
  | short c =>
    have hc : c ≠ 'c' := by
      rintro rfl
      cases ht
    have hzero : c ≠ '0' := by
      rintro rfl
      cases ht
    refine through_of fun s => ?_
    have hstep : xsi .plain (Token.text (.short c) ++ s) =
        match xsiEscape c with
        | some d => emit [d] (xsi .plain s)
        | none => emit ['\\', c] (xsi .plain s) := by
      simp [Token.text, xsi, hc, hzero]
    rw [hstep, tokenExpanded]
    cases xsiEscape c <;> rfl
  | unicode a b c d =>
    have hdigits : '\\' ∉ [a, b, c, d] := fun hmem => hexValue_backslash (ht _ hmem) rfl
    obtain ⟨h1, h2⟩ := through_plain hdigits
    have hu : Through ['\\', 'u'] ∧ expanded ['\\', 'u'] = ['\\', 'u'] := through_of fun _ => rfl
    refine ⟨through_additive.append (a := ['\\', 'u']) hu.1 h1, ?_⟩
    have happend := expanded_append hu.1 [a, b, c, d]
    rwa [hu.2, h2] at happend

/-- **A JSON string is expanded token by token.** -/
theorem through_string {raw : Text} (h : LegalStr raw) :
    Through raw ∧ expanded raw = (tokens raw).flatMap tokenExpanded := by
  have hlegal := tokens_legal h
  have htokens : ∀ ts : List Token, (∀ t ∈ ts, t.Legal) →
      Through (ts.flatMap Token.text) ∧ expanded (ts.flatMap Token.text) = ts.flatMap tokenExpanded := by
    intro ts
    induction ts with
    | nil => exact fun _ => ⟨through_additive.nil, rfl⟩
    | cons t ts ih =>
      intro hts
      obtain ⟨h1, h2⟩ := through_token (hts t List.mem_cons_self)
      obtain ⟨h3, h4⟩ := ih fun t' ht' => hts t' (List.mem_cons_of_mem t ht')
      rw [List.flatMap_cons, List.flatMap_cons]
      exact ⟨through_additive.append h1 h3, by rw [expanded_append h1, h2, h4]⟩
  have hall := htokens (tokens raw) hlegal
  rwa [tokens_text] at hall

/-! ## JSON values -/

theorem blank_backslash {s : Text} (h : Blank s) : '\\' ∉ s := fun hmem => absurd (h _ hmem) (by decide)

/-- a text and what it is expanded to, by themselves -/
def Becomes (a a' : Text) : Prop := Through a ∧ expanded a = a'

theorem becomes_append {a b a' b' : Text} (ha : Becomes a a') (hb : Becomes b b') : Becomes (a ++ b) (a' ++ b') :=
  ⟨through_additive.append ha.1 hb.1, by rw [expanded_append ha.1, ha.2, hb.2]⟩

theorem becomes_entries {α : Type} {text text' : α → Text} {close : Char} (hclose : close ≠ '\\') {xs : List α}
    (h : ∀ x ∈ xs, Becomes (text x) (text' x)) :
    Becomes (entriesText text close xs) (entriesText text' close xs) := by
  have hmore : ∀ ys : List α, (∀ y ∈ ys, Becomes (text y) (text' y)) →
      Becomes (ys.flatMap fun y => ',' :: text y) (ys.flatMap fun y => ',' :: text' y) := by
    intro ys
    induction ys with
    | nil => exact fun _ => ⟨through_additive.nil, rfl⟩
    | cons y ys ih =>
      intro hys
      rw [List.flatMap_cons, List.flatMap_cons]
      refine becomes_append ?_ (ih fun z hz => hys z (List.mem_cons_of_mem y hz))
      exact becomes_append (a := [',']) (through_char (by decide)) (hys y List.mem_cons_self)
  cases xs with
  | nil => exact through_char hclose
  | cons x xs =>
    rw [entriesText, entriesText, moreText, moreText]
    refine becomes_append (h x List.mem_cons_self) (becomes_append (hmore xs fun y hy => ?_) (through_char hclose))
    exact h y (List.mem_cons_of_mem x hy)

theorem entriesText_map {α : Type} (text : α → Text) (close : Char) (f : α → α) (xs : List α) :
    entriesText text close (xs.map f) = entriesText (fun x => text (f x)) close xs := by
  cases xs with
  | nil => rfl
  | cons x xs => rw [List.map_cons, entriesText, entriesText, moreText, moreText, List.flatMap_map]

theorem becomes_blank {s : Text} (h : Blank s) : Becomes s s := through_plain (blank_backslash h)

theorem becomes_char {c : Char} (hc : c ≠ '\\') : Becomes [c] [c] := through_char hc

/-- **In the text of a value nothing but its strings changes.** -/
theorem becomes_text {v : Value} (hv : Valid v) : Becomes v.text (mapStrings expanded v).text := by
  induction hv with
  | num hn => exact through_plain fun hmem => absurd (isNumber_chars hn _ hmem) (by decide)
  | @str raw hs =>
    have hquote : Becomes ['"'] ['"'] := becomes_char (by decide)
    have hraw : Becomes raw (expanded raw) := ⟨(through_string hs).1, rfl⟩
    exact becomes_append (becomes_append hquote hraw) hquote
  | @arr ws items hws _ hb _ ha ih =>
    rw [mapStrings, Value.text, Value.text, JsonText.itemsText_eq, JsonText.itemsText_eq, mapItems_eq, entriesText_map]
    refine becomes_append (becomes_append (a := ['[']) (becomes_char (by decide)) (becomes_blank hws)) ?_
    refine becomes_entries (by decide) fun i hi => ?_
    exact becomes_append (becomes_append (becomes_blank (hb i hi)) (ih i hi)) (becomes_blank (ha i hi))
  | @obj ws members hws _ hk hb _ ha ih =>
    rw [mapStrings, Value.text, Value.text, membersText_eq, membersText_eq, mapMembers_eq, entriesText_map]
    refine becomes_append (becomes_append (a := ['\x7b']) (becomes_char (by decide)) (becomes_blank hws)) ?_
    refine becomes_entries (by decide) fun m hm => ?_
    obtain ⟨hbefore, hlegal, hafter⟩ := hk m hm
    have hquote : Becomes ['"'] ['"'] := becomes_char (by decide)
    have hkey : Becomes (keyText m.1) (keyText (m.1.1, expanded m.1.2.1, m.1.2.2)) :=
      becomes_append (becomes_append (becomes_append (becomes_blank hbefore)
        (becomes_append hquote ⟨(through_string hlegal).1, rfl⟩)) (becomes_append hquote (becomes_blank hafter)))
        (becomes_char (by decide))
    have hitem : Becomes (itemText m.2) (itemText (m.2.1, mapStrings expanded m.2.2.1, m.2.2.2)) :=
      becomes_append (becomes_append (becomes_blank (hb m hm)) (ih m hm)) (becomes_blank (ha m hm))
    exact becomes_append hkey hitem
  | _ => exact through_plain (by decide)

end IconSetup.Echo
