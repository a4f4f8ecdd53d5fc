/-
The strings of a JSON text, found by looking at quotes and escapes alone.

A scan needs no grammar: outside a string it skips everything but a quote. On the text of a value it finds exactly the
strings of the value, and since no string contains a newline, it can be done line by line. So the strings of a text that
is put together from lines can be followed back to the lines.

- `adds_valid`: the scan of a value's text finds its strings, in order.
- `scan_newline`: the strings of two pieces with a newline between them are those of the pieces.
- `scanFrom_within`: a string that is found stands in front of the last quote of the text.
- `memberValue_mem`: the string that a key decodes to is one of them.
- `legal_of_strings`: the strings of a valid value are legal.
-/
import Mathlib.Tactic
import IconSetup.Core.JsonLex
import IconSetup.Core.JsonText

namespace IconSetup.JsonStrings

open IconSetup.JsonLex IconSetup.JsonText

/-! ## The scan -/

/-- outside a string (`none`), or inside one with what was read of it -/
def scanFrom : Option (StrState × Text) → Text → Option (List Text)
  | none, [] => some []
  | some _, [] => none
  | none, c :: s => if c = '"' then scanFrom (some (.plain, [])) s else scanFrom none s
  | some (st, read), c :: s =>
    if st = .plain ∧ c = '"' then (scanFrom none s).map (read :: ·)
    else
      match strStep st c with
      | none => none
      | some st' => scanFrom (some (st', read ++ [c])) s

/-- the raw strings of a text; `none` if the last one is not closed, or one is not legal -/
def scan (s : Text) : Option (List Text) := scanFrom none s

theorem scan_skip {a : Text} (ha : '"' ∉ a) (s : Text) : scan (a ++ s) = scan s := by
  induction a with
  | nil => rfl
  | cons c a ih =>
    obtain ⟨hc, hrest⟩ := List.ne_and_not_mem_of_not_mem_cons ha
    rw [List.cons_append, scan, scanFrom, if_neg (Ne.symm hc)]
    exact ih hrest

theorem scanFrom_close {st : StrState} {raw : Text} (h : raw.foldlM strStep st = some .plain) (read s : Text) :
    scanFrom (some (st, read)) (raw ++ '"' :: s) = (scan s).map ((read ++ raw) :: ·) := by
  induction raw generalizing st read with
  | nil =>
    cases h
    simp [scanFrom, scan]
  | cons c raw ih =>
    rw [List.foldlM_cons] at h
    obtain ⟨st', hst, h⟩ := Option.bind_eq_some_iff.1 h
    have hopen : ¬ (st = .plain ∧ c = '"') := by
      rintro ⟨rfl, rfl⟩
      cases hst
    rw [List.cons_append, scanFrom, if_neg hopen, hst]
    simp only [ih h, List.append_assoc, List.singleton_append]

/-- a legal string between quotes -/
theorem scan_string {raw : Text} (h : LegalStr raw) (s : Text) :
    scan ('"' :: raw ++ '"' :: s) = (scan s).map (raw :: ·) := by
  rw [scan, List.cons_append, scanFrom, if_pos rfl, scanFrom_close h, List.nil_append]

/-- no string goes on past a newline -/
theorem scanFrom_newline (st : Option (StrState × Text)) (a b : Text) :
    scanFrom st (a ++ '\n' :: b) = (scanFrom st a).bind fun xs => (scan b).map (xs ++ ·) := by
  induction a generalizing st with
  | nil =>
    cases st with
    | none => simp [scanFrom, scan]
    | some p =>
      obtain ⟨st, read⟩ := p
      have hnone : strStep st '\n' = none := by
        cases st with
        | plain => decide
        | backslash => decide
        | hex n => cases n <;> rfl
      simp [scanFrom, hnone]
  | cons c a ih =>
    cases st with
    | none =>
      rw [List.cons_append, scanFrom, scanFrom]
      split_ifs <;> exact ih _
    | some p =>
      obtain ⟨st, read⟩ := p
      rw [List.cons_append, scanFrom, scanFrom]
      split_ifs with hq
      · rw [ih]
        cases scanFrom none a with
        | none => rfl
        | some xs => cases scan b <;> rfl
      · cases strStep st c with
        | none => rfl
        | some st' => exact ih _

theorem scan_newline (a b : Text) : scan (a ++ '\n' :: b) = (scan a).bind fun xs => (scan b).map (xs ++ ·) :=
  scanFrom_newline none a b

/-- what was read of an open string -/
def readOf : Option (StrState × Text) → Text
  | none => []
  | some p => p.2

/-- a string that is found stands in the text, with a quote behind it -/
theorem scanFrom_mem {st : Option (StrState × Text)} {s : Text} {found : List Text} (h : scanFrom st s = some found)
    {raw : Text} (hraw : raw ∈ found) : ∃ a b, readOf st ++ s = a ++ raw ++ '"' :: b := by
  induction s generalizing st found with
  | nil =>
    cases st with
    | none => cases h; exact absurd hraw List.not_mem_nil
    | some p => cases h
  | cons c s ih =>
    cases st with
    | none =>
      have hs : ∃ st', readOf st' = [] ∧ scanFrom st' s = some found := by
        rw [scanFrom] at h
        split_ifs at h
        · exact ⟨_, rfl, h⟩
        · exact ⟨none, rfl, h⟩
      obtain ⟨st', hnil, hs⟩ := hs
      obtain ⟨a, b, he⟩ := ih hs hraw
      rw [hnil, List.nil_append] at he
      exact ⟨c :: a, b, by simp [readOf, he]⟩
    | some p =>
      obtain ⟨st, read⟩ := p
      rw [scanFrom] at h
      split_ifs at h with hq
      · obtain ⟨xs, hxs, rfl⟩ := Option.map_eq_some_iff.1 h
        obtain ⟨-, rfl⟩ := hq
        rcases List.mem_cons.1 hraw with rfl | hraw
        · exact ⟨[], s, rfl⟩
        · obtain ⟨a, b, he⟩ := ih hxs hraw
          have hs : s = a ++ raw ++ '"' :: b := he
          exact ⟨read ++ '"' :: a, b, by simp [readOf, hs]⟩
      · cases hstep : strStep st c with
        | none => rw [hstep] at h; cases h
        | some st' =>
          rw [hstep] at h
          obtain ⟨a, b, he⟩ := ih h hraw
          exact ⟨a, b, by simpa [readOf] using he⟩

/-- and so in front of the last quote of the text -/
theorem scanFrom_within {st : Option (StrState × Text)} {v tail : Text} {found : List Text} (hst : readOf st = [])
    (h : scanFrom st (v ++ '"' :: tail) = some found) (htail : '"' ∉ tail) : ∀ raw ∈ found, raw <:+: v := by
  intro raw hraw
  obtain ⟨a, b, he⟩ := scanFrom_mem h hraw
  rw [hst, List.nil_append] at he
  rcases List.append_eq_append_iff.1 he with ⟨mid, h1, h2⟩ | ⟨mid, h1, h2⟩
  · cases mid with
    | nil => exact ⟨a, [], by simpa using h1⟩
    | cons c mid =>
      obtain ⟨-, htl⟩ := List.cons.inj h2
      exact absurd (htl ▸ List.mem_append_right mid List.mem_cons_self) htail
  · exact ⟨a, mid, h1.symm⟩

/-! ## The strings of a value -/

/-- a text in front adds these strings to those of what follows -/
def Adds (a : Text) (found : List Text) : Prop := ∀ s, scan (a ++ s) = (scan s).map (found ++ ·)

theorem adds_skip {a : Text} (ha : '"' ∉ a) : Adds a [] := by
  intro s
  have hid : (fun ys : List Text => [] ++ ys) = id := rfl
  rw [scan_skip ha, hid, Option.map_id]
  rfl

theorem adds_append {a b : Text} {xs ys : List Text} (ha : Adds a xs) (hb : Adds b ys) : Adds (a ++ b) (xs ++ ys) := by
  intro s
  rw [List.append_assoc, ha, hb, Option.map_map]
  congr 1
  funext zs
  simp

theorem adds_string {raw : Text} (h : LegalStr raw) : Adds ('"' :: raw ++ ['"']) [raw] := by
  intro s
  have hassoc : '"' :: raw ++ ['"'] ++ s = '"' :: raw ++ '"' :: s := by simp
  rw [hassoc, scan_string h]
  rfl

theorem blank_quote {b : Text} (hb : Blank b) : '"' ∉ b := fun h => absurd (hb _ h) (by decide)

theorem adds_item {i : Item} (hi : GoodItem i) (h : Adds i.2.1.text (strings i.2.1)) :
    Adds (itemText i) (strings i.2.1) := by
  have h1 := adds_append (adds_append (adds_skip (blank_quote hi.1)) h) (adds_skip (blank_quote hi.2.2))
  simpa [itemText] using h1

theorem adds_member {m : Member} (hm : GoodMember m) (h : Adds m.2.2.1.text (strings m.2.2.1)) :
    Adds (memberText m) (m.1.2.1 :: strings m.2.2.1) := by
  have hkey := adds_append (adds_append (adds_append (adds_skip (blank_quote hm.1.1)) (adds_string hm.1.2.1))
    (adds_skip (blank_quote hm.1.2.2))) (adds_skip (a := [':']) (by decide))
  have hmember := adds_append hkey (adds_item hm.2 h)
  simpa [memberText, keyText] using hmember

section
variable {α : Type} {text : α → Text} {found : α → List Text} {close : Char}

theorem adds_more (hclose : close ≠ '"') {xs : List α} (h : ∀ x ∈ xs, Adds (text x) (found x)) :
    Adds (moreText text close xs) (xs.flatMap found) := by
  induction xs with
  | nil => exact adds_skip (a := [close]) (by simpa using Ne.symm hclose)
  | cons x xs ih =>
    have hrest := ih fun y hy => h y (List.mem_cons_of_mem x hy)
    have hcomma := adds_append (adds_append (adds_skip (a := [',']) (by decide)) (h x List.mem_cons_self)) hrest
    simpa [moreText] using hcomma

theorem adds_entries (hclose : close ≠ '"') {xs : List α} (h : ∀ x ∈ xs, Adds (text x) (found x)) :
    Adds (entriesText text close xs) (xs.flatMap found) := by
  cases xs with
  | nil => exact adds_skip (a := [close]) (by simpa using Ne.symm hclose)
  | cons x xs =>
    rw [entriesText, List.flatMap_cons]
    exact adds_append (h x List.mem_cons_self) (adds_more hclose fun y hy => h y (List.mem_cons_of_mem x hy))

end

theorem stringsItems_eq (items : List Item) : stringsItems items = items.flatMap fun i => strings i.2.1 := by
  induction items with
  | nil => rfl
  | cons i items ih =>
    obtain ⟨b, v, a⟩ := i
    rw [stringsItems, ih, List.flatMap_cons]

theorem stringsMembers_eq (members : List Member) :
    stringsMembers members = members.flatMap fun m => m.1.2.1 :: strings m.2.2.1 := by
  induction members with
  | nil => rfl
  | cons m members ih =>
    obtain ⟨⟨b, k, a⟩, before, v, after⟩ := m
    rw [stringsMembers, ih, List.flatMap_cons]
    rfl

/-- **The scan finds the strings of a value**, in order, and goes on behind it. -/
theorem adds_valid {v : Value} (hv : Valid v) : Adds v.text (strings v) := by
  induction hv with
  | null => exact adds_skip (by decide)
  | true => exact adds_skip (by decide)
  | false => exact adds_skip (by decide)
  | num hn => exact adds_skip fun h => absurd (isNumber_chars hn _ h) (by decide)
  | str hs => exact adds_string hs
  | @arr ws items hws hne hb hv ha ih =>
    have hitems : ∀ i ∈ items, Adds (itemText i) (strings i.2.1) := fun i hi =>
      adds_item ⟨hb i hi, hv i hi, ha i hi⟩ (ih i hi)
    have hclose : ']' ≠ '"' := by decide
    have hbody := adds_append (adds_append (adds_skip (a := ['[']) (by decide)) (adds_skip (blank_quote hws)))
      (adds_entries hclose hitems)
    rw [Value.text, itemsText_eq, strings, stringsItems_eq]
    simpa using hbody
  | @obj ws members hws hne hk hb hv ha ih =>
    have hmembers : ∀ m ∈ members, Adds (memberText m) (m.1.2.1 :: strings m.2.2.1) := fun m hm =>
      adds_member ⟨hk m hm, hb m hm, hv m hm, ha m hm⟩ (ih m hm)
    have hclose : '\x7d' ≠ '"' := by decide
    have hbody := adds_append (adds_append (adds_skip (a := ['\x7b']) (by decide)) (adds_skip (blank_quote hws)))
      (adds_entries hclose hmembers)
    rw [Value.text, membersText_eq, strings, stringsMembers_eq]
    simpa using hbody

/-- the scan of a text finds the strings of the value it is parsed as -/
theorem scan_parsed {s : Text} {v : Value} (h : parse s = some v) : scan s = some (strings v) := by
  obtain ⟨hv, before, after, hb, ha, rfl⟩ := parse_iff.1 h
  have hall := adds_append (adds_append (adds_skip (blank_quote hb)) (adds_valid hv)) (adds_skip (blank_quote ha)) []
  simpa [scan, scanFrom] using hall

theorem legal_of_strings {v : Value} (hv : Valid v) : ∀ raw ∈ strings v, LegalStr raw := by
  induction hv with
  | null => exact fun raw h => absurd h List.not_mem_nil
  | true => exact fun raw h => absurd h List.not_mem_nil
  | false => exact fun raw h => absurd h List.not_mem_nil
  | num hn => exact fun raw h => absurd h List.not_mem_nil
  | str hs => intro raw h; rw [List.mem_singleton.1 h]; exact hs
  | @arr ws items hws hne hb hv ha ih =>
    intro raw h
    rw [strings, stringsItems_eq, List.mem_flatMap] at h
    obtain ⟨i, hi, h⟩ := h
    exact ih i hi raw h
  | @obj ws members hws hne hk hb hv ha ih =>
    intro raw h
    rw [strings, stringsMembers_eq, List.mem_flatMap] at h
    obtain ⟨m, hm, h⟩ := h
    rcases List.mem_cons.1 h with rfl | h
    · exact (hk m hm).2.1
    · exact ih m hm raw h

theorem memberValue_mem {key raw : Text} {v : Value} (h : memberValue key v = some (.str raw)) : raw ∈ strings v := by
  cases v with
  | obj ws members =>
    obtain ⟨m, hm, he⟩ := Option.map_eq_some_iff.1 h
    have hmem := List.mem_reverse.1 (List.mem_of_find?_eq_some hm)
    rw [strings, stringsMembers_eq, List.mem_flatMap]
    refine ⟨m, hmem, List.mem_cons_of_mem _ ?_⟩
    rw [he]
    exact List.mem_singleton_self raw
  | _ => cases h

end IconSetup.JsonStrings
