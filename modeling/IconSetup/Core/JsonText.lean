/-
JSON text (RFC 8259) as a tree that keeps every character of it, and a parser for it.

A `Value` holds its numbers and strings raw and the white space between its tokens, so that `Value.text` is the text it
was read from; `Valid` says which trees are grammatical. The grammar is thus the set of texts of valid trees, and the
parser is exact for it:

- `value_sound`: what the parser reads is the text of a valid tree.
- `value_complete`: the text of a valid tree is read as that tree, whatever follows that cannot belong to it.
- `parse_iff`: a text is parsed as a value iff it is the text of that value, valid, between white space.

The parser takes fuel for its depth; the length of the text is always enough.
-/
import Mathlib.Data.List.TakeWhile
import Mathlib.Tactic
import IconSetup.Core.JsonLex

namespace IconSetup.JsonText

open IconSetup.JsonLex

/-! ## Values -/

inductive Value where
  | null
  | true
  | false
  | num (lit : Text)
  | str (raw : Text)
  /-- each item with the white space before and after it; `ws` stands in an array without items -/
  | arr (ws : Text) (items : List (Text × Value × Text))
  /-- each member as the white space before its key, the key, the white space after it, and an item -/
  | obj (ws : Text) (members : List ((Text × Text × Text) × Text × Value × Text))

abbrev Item := Text × Value × Text

abbrev Member := (Text × Text × Text) × Item

mutual

def Value.text : Value → Text
  | .null => ['n', 'u', 'l', 'l']
  | .true => ['t', 'r', 'u', 'e']
  | .false => ['f', 'a', 'l', 's', 'e']
  | .num lit => lit
  | .str raw => '"' :: raw ++ ['"']
  | .arr ws items => '[' :: ws ++ itemsText items
  | .obj ws members => '\x7b' :: ws ++ membersText members

/-- the items of an array, up to its closing bracket -/
def itemsText : List (Text × Value × Text) → Text
  | [] => [']']
  | (before, v, after) :: items => before ++ v.text ++ after ++ moreItems items

/-- the items after one that was read -/
def moreItems : List (Text × Value × Text) → Text
  | [] => [']']
  | (before, v, after) :: items => ',' :: (before ++ v.text ++ after ++ moreItems items)

def membersText : List ((Text × Text × Text) × Text × Value × Text) → Text
  | [] => ['\x7d']
  | ((b, key, a), before, v, after) :: members =>
    b ++ '"' :: key ++ '"' :: a ++ ':' :: before ++ v.text ++ after ++ moreMembers members

def moreMembers : List ((Text × Text × Text) × Text × Value × Text) → Text
  | [] => ['\x7d']
  | ((b, key, a), before, v, after) :: members =>
    ',' :: (b ++ '"' :: key ++ '"' :: a ++ ':' :: before ++ v.text ++ after ++ moreMembers members)

end

/-- the trees that follow the grammar -/
inductive Valid : Value → Prop where
  | null : Valid .null
  | true : Valid .true
  | false : Valid .false
  | num {lit : Text} : isNumber lit = true → Valid (.num lit)
  | str {raw : Text} : LegalStr raw → Valid (.str raw)
  | arr {ws : Text} {items : List Item} : Blank ws → (items ≠ [] → ws = []) →
      (∀ i ∈ items, Blank i.1) → (∀ i ∈ items, Valid i.2.1) → (∀ i ∈ items, Blank i.2.2) → Valid (.arr ws items)
  | obj {ws : Text} {members : List Member} : Blank ws → (members ≠ [] → ws = []) →
      (∀ m ∈ members, Blank m.1.1 ∧ LegalStr m.1.2.1 ∧ Blank m.1.2.2) → (∀ m ∈ members, Blank m.2.1) →
      (∀ m ∈ members, Valid m.2.2.1) → (∀ m ∈ members, Blank m.2.2.2) → Valid (.obj ws members)

/-! ## Strings and members -/

mutual

/-- the strings of a value, raw, with the keys of its objects -/
def strings : Value → List Text
  | .null | .true | .false | .num _ => []
  | .str raw => [raw]
  | .arr _ items => stringsItems items
  | .obj _ members => stringsMembers members

def stringsItems : List (Text × Value × Text) → List Text
  | [] => []
  | (_, v, _) :: items => strings v ++ stringsItems items

def stringsMembers : List ((Text × Text × Text) × Text × Value × Text) → List Text
  | [] => []
  | ((_, key, _), _, v, _) :: members => key :: (strings v ++ stringsMembers members)

end

/-- the value of the last member with the key -/
def memberValue (key : Text) : Value → Option Value
  | .obj _ members => (members.reverse.find? fun m => decide (unescape m.1.2.1 = some key)).map fun m => m.2.2.1
  | _ => none

/-! ## The parser -/

/-- a reader takes something off the front of a text -/
abbrev Reader (α : Type) := Text → Option (α × Text)

/-- a value between white space -/
def item (value : Reader Value) : Reader Item := fun s =>
  (value (s.dropWhile isBlank)).map fun p =>
    ((s.takeWhile isBlank, p.1, p.2.takeWhile isBlank), p.2.dropWhile isBlank)

/-- a key between white space, and its colon -/
def key : Reader (Text × Text × Text) := fun s =>
  match s.dropWhile isBlank with
  | '"' :: s' =>
    match strBody .plain s' with
    | none => none
    | some (raw, r) =>
      match r.dropWhile isBlank with
      | ':' :: r' => some ((s.takeWhile isBlank, raw, r.takeWhile isBlank), r')
      | _ => none
  | _ => none

def member (value : Reader Value) : Reader Member := fun s =>
  (key s).bind fun k => (item value k.2).map fun i => ((k.1, i.1), i.2)

/-- what follows an entry of an array or object: the closing bracket, or a comma and more entries -/
def more {α : Type} (entry : Reader α) (close : Char) : ℕ → Reader (List α)
  | 0, _ => none
  | n + 1, s =>
    match s with
    | [] => none
    | c :: s =>
      if c = close then some ([], s)
      else if c = ',' then (entry s).bind fun p => (more entry close n p.2).map fun q => (p.1 :: q.1, q.2)
      else none

/-- the entries of an array or object, behind its opening bracket, with the white space of an empty one -/
def entries {α : Type} (entry : Reader α) (close : Char) (n : ℕ) : Reader (Text × List α) := fun s =>
  if (s.dropWhile isBlank).head? = some close then some ((s.takeWhile isBlank, []), (s.dropWhile isBlank).tail)
  else (entry s).bind fun p => (more entry close n p.2).map fun q => (([], p.1 :: q.1), q.2)

def value : ℕ → Reader Value
  | 0, _ => none
  | n + 1, s =>
    match s with
    | 'n' :: 'u' :: 'l' :: 'l' :: s => some (.null, s)
    | 't' :: 'r' :: 'u' :: 'e' :: s => some (.true, s)
    | 'f' :: 'a' :: 'l' :: 's' :: 'e' :: s => some (.false, s)
    | '"' :: s => (strBody .plain s).map fun p => (.str p.1, p.2)
    | '[' :: s => (entries (item (value n)) ']' n s).map fun p => (.arr p.1.1 p.1.2, p.2)
    | '\x7b' :: s => (entries (member (value n)) '\x7d' n s).map fun p => (.obj p.1.1 p.1.2, p.2)
    | s => (number s).map fun p => (.num p.1, p.2)

/-- a whole text: one value between white space -/
def parse (s : Text) : Option Value :=
  match item (value (s.length + 1)) s with
  | some (i, []) => some i.2.1
  | _ => none

/-! ## Sound -/

/-- what the reader takes off the front is `text` of the result, which is `good` -/
def Sound {α : Type} (text : α → Text) (good : α → Prop) (read : Reader α) : Prop :=
  ∀ s x rest, read s = some (x, rest) → s = text x ++ rest ∧ good x

def itemText (i : Item) : Text := i.1 ++ i.2.1.text ++ i.2.2

def GoodItem (i : Item) : Prop := Blank i.1 ∧ Valid i.2.1 ∧ Blank i.2.2

def keyText (k : Text × Text × Text) : Text := k.1 ++ '"' :: k.2.1 ++ '"' :: k.2.2 ++ [':']

def GoodKey (k : Text × Text × Text) : Prop := Blank k.1 ∧ LegalStr k.2.1 ∧ Blank k.2.2

def memberText (m : Member) : Text := keyText m.1 ++ itemText m.2

def GoodMember (m : Member) : Prop := GoodKey m.1 ∧ GoodItem m.2

/-- entries behind one that was read -/
def moreText {α : Type} (text : α → Text) (close : Char) (xs : List α) : Text :=
  xs.flatMap (fun x => ',' :: text x) ++ [close]

theorem moreItems_eq (items : List Item) : moreItems items = moreText itemText ']' items := by
  induction items with
  | nil => rfl
  | cons i items ih =>
    obtain ⟨b, v, a⟩ := i
    rw [moreItems, ih, moreText, moreText, List.flatMap_cons]
    simp [itemText]

theorem moreMembers_eq (members : List Member) : moreMembers members = moreText memberText '\x7d' members := by
  induction members with
  | nil => rfl
  | cons m members ih =>
    obtain ⟨⟨b, k, a⟩, before, v, after⟩ := m
    rw [moreMembers, ih, moreText, moreText, List.flatMap_cons]
    simp [memberText, keyText, itemText]

/-- the entries behind an opening bracket -/
def entriesText {α : Type} (text : α → Text) (close : Char) : List α → Text
  | [] => [close]
  | x :: xs => text x ++ moreText text close xs

theorem entriesText_cons {α : Type} {text : α → Text} {close : Char} {xs : List α} (hne : xs ≠ []) (x : α) :
    entriesText text close (x :: xs) = text x ++ ',' :: entriesText text close xs := by
  obtain ⟨y, ys, rfl⟩ := List.exists_cons_of_ne_nil hne
  simp [entriesText, moreText]

theorem itemsText_eq (items : List Item) : itemsText items = entriesText itemText ']' items := by
  cases items with
  | nil => rfl
  | cons i items =>
    obtain ⟨b, v, a⟩ := i
    rw [itemsText, moreItems_eq, entriesText, itemText]

theorem membersText_eq (members : List Member) : membersText members = entriesText memberText '\x7d' members := by
  cases members with
  | nil => rfl
  | cons m members =>
    obtain ⟨⟨b, k, a⟩, before, v, after⟩ := m
    rw [membersText, moreMembers_eq, entriesText, memberText, keyText, itemText]
    simp

theorem item_sound {value : Reader Value} (h : Sound Value.text Valid value) : Sound itemText GoodItem (item value) := by
  intro s i rest hs
  obtain ⟨p, hp, he⟩ := Option.map_eq_some_iff.1 hs
  cases he
  obtain ⟨h1, h2⟩ := h _ _ _ hp
  refine ⟨?_, blank_takeWhile s, h2, blank_takeWhile p.2⟩
  calc s = s.takeWhile isBlank ++ s.dropWhile isBlank := List.takeWhile_append_dropWhile.symm
    _ = s.takeWhile isBlank ++ (p.1.text ++ (p.2.takeWhile isBlank ++ p.2.dropWhile isBlank)) := by
      rw [h1, List.takeWhile_append_dropWhile]
    _ = _ := by simp [itemText]

theorem key_sound : Sound keyText GoodKey key := by
  intro s k rest hs
  unfold key at hs
  split at hs
  · rename_i s' hs'
    split at hs
    · cases hs
    · rename_i raw r hraw
      split at hs
      · rename_i r' hr'
        cases hs
        obtain ⟨h1, h2⟩ := strBody_iff.1 hraw
        refine ⟨?_, blank_takeWhile s, h2, blank_takeWhile r⟩
        calc s = s.takeWhile isBlank ++ '"' :: s' := by rw [← hs', List.takeWhile_append_dropWhile]
          _ = s.takeWhile isBlank ++ '"' :: (raw ++ '"' :: (r.takeWhile isBlank ++ ':' :: rest)) := by
            rw [h1, ← hr', List.takeWhile_append_dropWhile]
          _ = _ := by simp [keyText]
      · cases hs
  · cases hs

theorem member_sound {value : Reader Value} (h : Sound Value.text Valid value) :
    Sound memberText GoodMember (member value) := by
  intro s m rest hs
  obtain ⟨k, hk, hs⟩ := Option.bind_eq_some_iff.1 hs
  obtain ⟨i, hi, he⟩ := Option.map_eq_some_iff.1 hs
  cases he
  obtain ⟨h1, h2⟩ := key_sound _ _ _ hk
  obtain ⟨h3, h4⟩ := item_sound h _ _ _ hi
  exact ⟨by rw [h1, h3]; simp [memberText], h2, h4⟩

section
variable {α : Type} {text : α → Text} {good : α → Prop} {entry : Reader α} {close : Char}

theorem more_sound (h : Sound text good entry) (n : ℕ) :
    Sound (moreText text close) (fun xs => ∀ x ∈ xs, good x) (more entry close n) := by
  induction n with
  | zero => intro s xs rest hs; cases hs
  | succ n ih =>
    intro s xs rest hs
    cases s with
    | nil => cases hs
    | cons c s =>
      simp only [more] at hs
      split_ifs at hs with hclose hcomma
      · cases hs
        subst hclose
        exact ⟨rfl, fun x hx => absurd hx List.not_mem_nil⟩
      · obtain ⟨p, hp, hs⟩ := Option.bind_eq_some_iff.1 hs
        obtain ⟨q, hq, he⟩ := Option.map_eq_some_iff.1 hs
        cases he
        obtain ⟨h1, h2⟩ := h _ _ _ hp
        obtain ⟨h3, h4⟩ := ih _ _ _ hq
        refine ⟨?_, ?_⟩
        · rw [hcomma, h1, h3]
          simp [moreText]
        · intro x hx
          rcases List.mem_cons.1 hx with rfl | hx
          · exact h2
          · exact h4 x hx

theorem entries_sound (h : Sound text good entry) (n : ℕ) :
    Sound (fun p => p.1 ++ entriesText text close p.2)
      (fun p => Blank p.1 ∧ (p.2 ≠ [] → p.1 = []) ∧ ∀ x ∈ p.2, good x) (entries entry close n) := by
  intro s p rest hs
  unfold entries at hs
  split_ifs at hs with hclose
  · cases hs
    refine ⟨?_, blank_takeWhile s, fun hne => absurd rfl hne, fun x hx => absurd hx List.not_mem_nil⟩
    have hdrop := List.head?_eq_some_iff.1 hclose
    obtain ⟨s', hs'⟩ := hdrop
    calc s = s.takeWhile isBlank ++ close :: s' := by rw [← hs', List.takeWhile_append_dropWhile]
      _ = _ := by simp [entriesText, hs']
  · obtain ⟨q, hq, hs⟩ := Option.bind_eq_some_iff.1 hs
    obtain ⟨r, hr, he⟩ := Option.map_eq_some_iff.1 hs
    cases he
    obtain ⟨h1, h2⟩ := h _ _ _ hq
    obtain ⟨h3, h4⟩ := more_sound h n _ _ _ hr
    refine ⟨?_, fun c hc => absurd hc List.not_mem_nil, fun _ => rfl, ?_⟩
    · rw [h1, h3]
      simp [entriesText]
    · intro x hx
      rcases List.mem_cons.1 hx with rfl | hx
      · exact h2
      · exact h4 x hx

end

theorem valid_arr {ws : Text} {items : List Item} (hb : Blank ws) (hws : items ≠ [] → ws = [])
    (h : ∀ i ∈ items, GoodItem i) : Valid (.arr ws items) :=
  .arr hb hws (fun i hi => (h i hi).1) (fun i hi => (h i hi).2.1) fun i hi => (h i hi).2.2

theorem valid_obj {ws : Text} {members : List Member} (hb : Blank ws) (hws : members ≠ [] → ws = [])
    (h : ∀ m ∈ members, GoodMember m) : Valid (.obj ws members) :=
  .obj hb hws (fun m hm => (h m hm).1) (fun m hm => (h m hm).2.1) (fun m hm => (h m hm).2.2.1)
    fun m hm => (h m hm).2.2.2

/-- **What the parser reads is the text of a valid tree.** By induction on the fuel; an array or object is read with
less of it. -/
theorem value_sound (n : ℕ) : Sound Value.text Valid (value n) := by
  induction n with
  | zero => intro s v rest hs; cases hs
  | succ n ih =>
    intro s v rest hs
    unfold value at hs
    split at hs
    · cases hs; exact ⟨rfl, .null⟩
    · cases hs; exact ⟨rfl, .true⟩
    · cases hs; exact ⟨rfl, .false⟩
    · obtain ⟨p, hp, he⟩ := Option.map_eq_some_iff.1 hs
      cases he
      obtain ⟨h1, h2⟩ := strBody_iff.1 hp
      exact ⟨by rw [h1]; simp [Value.text], .str h2⟩
    · obtain ⟨p, hp, he⟩ := Option.map_eq_some_iff.1 hs
      cases he
      obtain ⟨h1, h2, h3, h4⟩ := entries_sound (item_sound ih) n _ _ _ hp
      exact ⟨by rw [h1, Value.text, itemsText_eq]; simp, valid_arr h2 h3 h4⟩
    · obtain ⟨p, hp, he⟩ := Option.map_eq_some_iff.1 hs
      cases he
      obtain ⟨h1, h2, h3, h4⟩ := entries_sound (member_sound ih) n _ _ _ hp
      exact ⟨by rw [h1, Value.text, membersText_eq]; simp, valid_obj h2 h3 h4⟩
    · obtain ⟨p, hp, he⟩ := Option.map_eq_some_iff.1 hs
      cases he
      obtain ⟨h1, h2⟩ := number_some hp
      exact ⟨by rw [h1]; rfl, .num h2⟩

/-! ## Complete -/

/-- the text does not go on with white space or with a character of a number -/
def Ends (s : Text) : Prop := Stops isBlank s ∧ Stops numChar s

/-- the reader takes `x` off the front of its text, whatever ends it -/
def Reads {α : Type} (text : α → Text) (read : Reader α) (x : α) : Prop :=
  ∀ rest, Ends rest → read (text x ++ rest) = some (x, rest)

theorem ends_cons {c : Char} (hb : isBlank c = false) (hn : numChar c = false) (s : Text) : Ends (c :: s) :=
  ⟨fun _ hc => Option.mem_some_iff.1 hc ▸ hb, fun _ hc => Option.mem_some_iff.1 hc ▸ hn⟩

theorem ends_nil : Ends [] := ⟨fun _ hc => absurd hc (Option.not_mem_none _), fun _ hc => absurd hc (Option.not_mem_none _)⟩

/-- white space does not belong to a number -/
theorem stops_blank_append {a s : Text} (ha : Blank a) (hs : Stops numChar s) : Stops numChar (a ++ s) := by
  cases a with
  | nil => exact hs
  | cons c a =>
    intro x hx
    rw [← Option.mem_some_iff.1 hx]
    have hc := ha c List.mem_cons_self
    simp only [isBlank, Bool.or_eq_true, decide_eq_true_eq] at hc
    rcases hc with ((rfl | rfl) | rfl) | rfl <;> decide

/-- a value begins with a character that is not white space and closes nothing -/
theorem text_head {v : Value} (h : Valid v) :
    ∃ c s, v.text = c :: s ∧ isBlank c = false ∧ c ≠ ']' ∧ c ≠ '\x7d' := by
  cases h with
  | null => exact ⟨'n', _, rfl, by decide⟩
  | true => exact ⟨'t', _, rfl, by decide⟩
  | false => exact ⟨'f', _, rfl, by decide⟩
  | num hn =>
    obtain ⟨c, s, rfl, hc⟩ := isNumber_head hn
    refine ⟨c, s, rfl, ?_⟩
    by_contra hbad
    have hchars : c = ' ' ∨ c = '\t' ∨ c = '\n' ∨ c = '\r' ∨ c = ']' ∨ c = '\x7d' := by
      simp only [isBlank] at hbad
      by_contra hne
      simp only [not_or] at hne
      simp [hne] at hbad
    rcases hchars with rfl | rfl | rfl | rfl | rfl | rfl <;> revert hc <;> decide
  | str hs => exact ⟨'"', _, rfl, by decide⟩
  | arr => exact ⟨'[', _, rfl, by decide⟩
  | obj => exact ⟨'\x7b', _, rfl, by decide⟩

/-- what stands behind the white space in front of an item -/
theorem item_dropWhile {i : Item} (h : GoodItem i) (s : Text) :
    (itemText i ++ s).takeWhile isBlank = i.1 ∧ (itemText i ++ s).dropWhile isBlank = i.2.1.text ++ (i.2.2 ++ s) := by
  have hstop : Stops isBlank (i.2.1.text ++ (i.2.2 ++ s)) := by
    obtain ⟨c, t, ht, hc, -⟩ := text_head h.2.1
    rw [ht]
    exact fun x hx => Option.mem_some_iff.1 hx ▸ hc
  have hassoc : itemText i ++ s = i.1 ++ (i.2.1.text ++ (i.2.2 ++ s)) := by simp [itemText]
  rw [hassoc]
  exact takeWhile_append h.1 hstop

theorem item_complete {value : Reader Value} {i : Item} (hi : GoodItem i)
    (hv : ∀ rest, Stops numChar rest → value (i.2.1.text ++ rest) = some (i.2.1, rest)) :
    Reads itemText (item value) i := by
  intro rest hrest
  obtain ⟨h1, h2⟩ := item_dropWhile hi rest
  obtain ⟨h3, h4⟩ := takeWhile_append hi.2.2 hrest.1
  rw [item, h1, h2, hv _ (stops_blank_append hi.2.2 hrest.2), Option.map_some, h3, h4]

theorem key_complete {k : Text × Text × Text} (hk : GoodKey k) (rest : Text) : key (keyText k ++ rest) = some (k, rest) := by
  obtain ⟨b, raw, a⟩ := k
  obtain ⟨hb, hraw, ha⟩ := hk
  have hquote : Stops isBlank ('"' :: (raw ++ '"' :: (a ++ ':' :: rest))) :=
    fun x hx => Option.mem_some_iff.1 hx ▸ by decide
  have hcolon : Stops isBlank (':' :: rest) := fun x hx => Option.mem_some_iff.1 hx ▸ by decide
  have hassoc : keyText (b, raw, a) ++ rest = b ++ '"' :: (raw ++ '"' :: (a ++ ':' :: rest)) := by simp [keyText]
  obtain ⟨h1, h2⟩ := takeWhile_append hb hquote
  obtain ⟨h3, h4⟩ := takeWhile_append ha hcolon
  have hbody : strBody .plain (raw ++ '"' :: (a ++ ':' :: rest)) = some (raw, a ++ ':' :: rest) :=
    strBody_iff.2 ⟨rfl, hraw⟩
  rw [hassoc, key, h1, h2]
  simp only [hbody, h3, h4]

theorem member_complete {value : Reader Value} {m : Member} (hm : GoodMember m)
    (hv : ∀ rest, Stops numChar rest → value (m.2.2.1.text ++ rest) = some (m.2.2.1, rest)) :
    Reads memberText (member value) m := by
  intro rest hrest
  have hassoc : memberText m ++ rest = keyText m.1 ++ (itemText m.2 ++ rest) := by simp [memberText]
  rw [hassoc, member, key_complete hm.1, Option.bind_some, item_complete hm.2 hv rest hrest, Option.map_some]

section
variable {α : Type} {text : α → Text} {entry : Reader α} {close : Char}

theorem ends_more (hclose : isBlank close = false ∧ numChar close = false) (xs : List α) (rest : Text) :
    Ends (moreText text close xs ++ rest) := by
  cases xs with
  | nil => exact ends_cons hclose.1 hclose.2 rest
  | cons x xs => exact ends_cons (by decide) (by decide) _

theorem more_complete (hclose : isBlank close = false ∧ numChar close = false ∧ close ≠ ',') {xs : List α}
    (hx : ∀ x ∈ xs, Reads text entry x) (n : ℕ) (hn : xs.length < n) (rest : Text) :
    more entry close n (moreText text close xs ++ rest) = some (xs, rest) := by
  induction xs generalizing n with
  | nil =>
    obtain ⟨n, rfl⟩ := Nat.exists_eq_succ_of_ne_zero (Nat.ne_of_gt hn)
    simp [more, moreText]
  | cons x xs ih =>
    obtain ⟨n, rfl⟩ := Nat.exists_eq_succ_of_ne_zero (Nat.ne_of_gt (Nat.zero_lt_of_lt hn))
    have hassoc : moreText text close (x :: xs) ++ rest = ',' :: (text x ++ (moreText text close xs ++ rest)) := by
      simp [moreText]
    have hends : Ends (moreText text close xs ++ rest) := ends_more ⟨hclose.1, hclose.2.1⟩ xs rest
    have hentry := hx x List.mem_cons_self _ hends
    have hrest := ih (fun y hy => hx y (List.mem_cons_of_mem x hy)) n (Nat.lt_of_succ_lt_succ hn)
    rw [hassoc, more]
    simp only [if_neg (Ne.symm hclose.2.2), if_true, hentry, Option.bind_some, hrest, Option.map_some]

theorem entries_complete (hclose : isBlank close = false ∧ numChar close = false ∧ close ≠ ',') {ws : Text}
    {xs : List α} (hws : Blank ws) (hne : xs ≠ [] → ws = []) (hx : ∀ x ∈ xs, Reads text entry x)
    (hhead : ∀ x ∈ xs, ∀ s, ((text x ++ s).dropWhile isBlank).head? ≠ some close) (n : ℕ) (hn : xs.length ≤ n)
    (rest : Text) : entries entry close n (ws ++ entriesText text close xs ++ rest) = some ((ws, xs), rest) := by
  cases xs with
  | nil =>
    have hstop : Stops isBlank (close :: rest) := fun x hx => Option.mem_some_iff.1 hx ▸ hclose.1
    obtain ⟨h1, h2⟩ := takeWhile_append hws hstop
    have hassoc : ws ++ entriesText text close [] ++ rest = ws ++ close :: rest := by simp [entriesText]
    rw [hassoc, entries, h1, h2]
    simp
  | cons x xs =>
    have hws' := hne (List.cons_ne_nil x xs)
    subst hws'
    have hassoc : [] ++ entriesText text close (x :: xs) ++ rest = text x ++ (moreText text close xs ++ rest) := by
      simp [entriesText]
    have hends : Ends (moreText text close xs ++ rest) := ends_more ⟨hclose.1, hclose.2.1⟩ xs rest
    have hentry := hx x List.mem_cons_self _ hends
    have hmore := more_complete hclose (fun y hy => hx y (List.mem_cons_of_mem x hy)) n hn rest
    rw [hassoc, entries, if_neg (hhead x List.mem_cons_self _), hentry, Option.bind_some, hmore, Option.map_some]

theorem length_moreText (text : α → Text) (close : Char) (xs : List α) : xs.length < (moreText text close xs).length := by
  induction xs with
  | nil => simp [moreText]
  | cons x xs ih =>
    have hassoc : moreText text close (x :: xs) = ',' :: (text x ++ moreText text close xs) := by simp [moreText]
    rw [hassoc]
    simp only [List.length_cons, List.length_append]
    omega

theorem length_entry (text : α → Text) (close : Char) {x : α} {xs : List α} (hx : x ∈ xs) :
    (text x).length < (moreText text close xs).length := by
  induction xs with
  | nil => exact absurd hx List.not_mem_nil
  | cons y xs ih =>
    have hassoc : moreText text close (y :: xs) = ',' :: (text y ++ moreText text close xs) := by simp [moreText]
    rw [hassoc]
    simp only [List.length_cons, List.length_append]
    rcases List.mem_cons.1 hx with rfl | hx
    · omega
    · have := ih hx
      omega

theorem length_entriesText (text : α → Text) (close : Char) (xs : List α) :
    (moreText text close xs).length ≤ (entriesText text close xs).length + 1 := by
  cases xs with
  | nil => simp [moreText, entriesText]
  | cons x xs =>
    have hassoc : moreText text close (x :: xs) = ',' :: entriesText text close (x :: xs) := by
      simp [moreText, entriesText]
    rw [hassoc, List.length_cons]

end

theorem length_itemText (i : Item) : i.2.1.text.length ≤ (itemText i).length := by
  simp only [itemText, List.length_append]
  omega

theorem length_memberText (m : Member) : m.2.2.1.text.length ≤ (memberText m).length := by
  have := length_itemText m.2
  simp only [memberText, List.length_append]
  omega

theorem item_head {i : Item} (h : GoodItem i) (s : Text) : ((itemText i ++ s).dropWhile isBlank).head? ≠ some ']' := by
  obtain ⟨c, t, ht, -, hc, -⟩ := text_head h.2.1
  rw [(item_dropWhile h s).2, ht]
  exact fun he => hc (Option.some.inj he)

theorem member_head {m : Member} (h : GoodMember m) (s : Text) :
    ((memberText m ++ s).dropWhile isBlank).head? ≠ some '\x7d' := by
  have hassoc : memberText m ++ s = m.1.1 ++ '"' :: (m.1.2.1 ++ '"' :: m.1.2.2 ++ [':'] ++ itemText m.2 ++ s) := by
    simp [memberText, keyText]
  have hquote : ∀ t, Stops isBlank ('"' :: t) := fun t x hx => Option.mem_some_iff.1 hx ▸ by decide
  rw [hassoc, (takeWhile_append h.1.1 (hquote _)).2]
  exact fun he => absurd (Option.some.inj he) (by decide)

/-- numbers are read by the last branch of the parser -/
theorem value_number {s : Text} {c : Char} {t : Text} (hs : s = c :: t) (hc : c = '-' ∨ isDigit c = true) (n : ℕ) :
    value (n + 1) s = (number s).map fun p => (.num p.1, p.2) := by
  subst hs
  unfold value
  split
  all_goals first
    | rfl
    | (rename_i h
       obtain ⟨rfl, -⟩ := List.cons.inj h
       exact absurd hc (by decide))

/-- **The text of a valid tree is read as that tree.** By induction on the fuel, which the length of the text bounds:
every value inside an array or object has a shorter text. -/
theorem value_complete (n : ℕ) {v : Value} (hv : Valid v) (hn : v.text.length < n) {rest : Text}
    (hrest : Stops numChar rest) : value n (v.text ++ rest) = some (v, rest) := by
  induction n generalizing v rest with
  | zero => exact absurd hn (Nat.not_lt_zero _)
  | succ n ih =>
    cases hv with
    | null => rfl
    | true => rfl
    | false => rfl
    | num hlit =>
      rename_i lit
      obtain ⟨c, t, ht, hc⟩ := isNumber_head hlit
      have hcons : lit ++ rest = c :: (t ++ rest) := by rw [ht, List.cons_append]
      rw [Value.text, value_number hcons hc, number_append hlit hrest, Option.map_some]
    | str hraw =>
      rename_i raw
      have hassoc : (Value.str raw).text ++ rest = '"' :: (raw ++ '"' :: rest) := by simp [Value.text]
      have hbody : strBody .plain (raw ++ '"' :: rest) = some (raw, rest) := strBody_iff.2 ⟨rfl, hraw⟩
      rw [hassoc, value, hbody, Option.map_some]
    | arr hws hne hb hv ha =>
      rename_i ws items
      have hassoc : (Value.arr ws items).text ++ rest = '[' :: (ws ++ entriesText itemText ']' items ++ rest) := by
        rw [Value.text, itemsText_eq]; simp
      have hlen : (entriesText itemText ']' items).length + 1 ≤ (Value.arr ws items).text.length := by
        rw [Value.text, itemsText_eq]; simp
      have hmore := length_entriesText itemText ']' items
      have hgood : ∀ i ∈ items, GoodItem i := fun i hi => ⟨hb i hi, hv i hi, ha i hi⟩
      have hreads : ∀ i ∈ items, Reads itemText (item (value n)) i := by
        intro i hi
        have h1 := length_itemText i
        have h2 := length_entry itemText ']' hi
        exact item_complete (hgood i hi) fun r hr => ih (hv i hi) (by omega) hr
      have hcount := length_moreText itemText ']' items
      rw [hassoc, value, entries_complete (by decide) hws hne hreads (fun i hi => item_head (hgood i hi)) n (by omega),
        Option.map_some]
    | obj hws hne hk hb hv ha =>
      rename_i ws members
      have hassoc : (Value.obj ws members).text ++ rest =
          '\x7b' :: (ws ++ entriesText memberText '\x7d' members ++ rest) := by
        rw [Value.text, membersText_eq]; simp
      have hlen : (entriesText memberText '\x7d' members).length + 1 ≤ (Value.obj ws members).text.length := by
        rw [Value.text, membersText_eq]; simp
      have hmore := length_entriesText memberText '\x7d' members
      have hgood : ∀ m ∈ members, GoodMember m := fun m hm => ⟨hk m hm, hb m hm, hv m hm, ha m hm⟩
      have hreads : ∀ m ∈ members, Reads memberText (member (value n)) m := by
        intro m hm
        have h1 := length_memberText m
        have h2 := length_entry memberText '\x7d' hm
        exact member_complete (hgood m hm) fun r hr => ih (hv m hm) (by omega) hr
      have hcount := length_moreText memberText '\x7d' members
      rw [hassoc, value, entries_complete (by decide) hws hne hreads (fun m hm => member_head (hgood m hm)) n (by omega),
        Option.map_some]

/-- **The parser is exact for the grammar**: it reads a text as a value iff the value is valid and the text is its
text, between white space. -/
theorem parse_iff {s : Text} {v : Value} :
    parse s = some v ↔ Valid v ∧ ∃ before after, Blank before ∧ Blank after ∧ s = before ++ v.text ++ after := by
  constructor
  · intro h
    unfold parse at h
    split at h
    · rename_i i hi
      cases h
      obtain ⟨h1, h2, h3, h4⟩ := item_sound (value_sound _) _ _ _ hi
      exact ⟨h3, i.1, i.2.2, h2, h4, by rw [h1, List.append_nil]; rfl⟩
    · cases h
  · rintro ⟨hv, before, after, hb, ha, rfl⟩
    have hlen : v.text.length < (before ++ v.text ++ after).length + 1 := by
      simp only [List.length_append]
      omega
    have hread := item_complete (i := (before, v, after)) ⟨hb, hv, ha⟩ (fun r hr => value_complete _ hv hlen hr) []
      ends_nil
    rw [List.append_nil] at hread
    have hitem : itemText (before, v, after) = before ++ v.text ++ after := rfl
    rw [hitem] at hread
    rw [parse, hread]

example : parse "[1, \x7b\"a\": \"b\"\x7d]".toList = some (.arr [] [([], .num ['1'], []),
    ([' '], .obj [] [(([], ['a'], []), [' '], .str ['b'], [])], [])]) := by rfl

end IconSetup.JsonText
