/-
JSON values printed over several lines: each item and each member on lines of its own, with one blank more for each
level; an array or object without entries is printed on one line.

- `layout_valid`, `layout_same`, `layout_strings`: the printed value is the value.
- `membersText_layout`: the text between the brackets of an object, apart from the end of its last line.
- `body_indented`: behind every line end in it there are as many blanks as the level has.
- `indented_lines`: the lines of such a text begin with these blanks.
-/
import Mathlib.Tactic
import IconSetup.Core.JsonEqual
import IconSetup.Core.Shell

namespace IconSetup.JsonLayout

open IconSetup.JsonLex IconSetup.JsonText IconSetup.JsonStrings IconSetup.JsonEqual

/-! ## Printing -/

/-- the end of a line and the indentation of the next one -/
def newline (d : ℕ) : Text := '\n' :: List.replicate d ' '

mutual

/-- the value with the white space of a value at depth d -/
def layout : ℕ → Value → Value
  | _, .null => .null
  | _, .true => .true
  | _, .false => .false
  | _, .num lit => .num lit
  | _, .str raw => .str raw
  | d, .arr _ items => .arr [] (layoutItems d items)
  | d, .obj _ members => .obj [] (layoutMembers d (newline d) members)

def layoutItems : ℕ → List (Text × Value × Text) → List (Text × Value × Text)
  | _, [] => []
  | d, (_, v, _) :: items =>
    (newline (d + 1), layout (d + 1) v, if items.isEmpty then newline d else []) :: layoutItems d items

/-- the members at depth d, with `last` behind the last of them -/
def layoutMembers : ℕ → Text → List ((Text × Text × Text) × Text × Value × Text) →
    List ((Text × Text × Text) × Text × Value × Text)
  | _, _, [] => []
  | d, last, ((_, key, _), _, v, _) :: members =>
    ((newline (d + 1), key, []), [' '], layout (d + 1) v, if members.isEmpty then last else []) ::
      layoutMembers d last members

end

/-- a member as it is printed, without a comma -/
def memberLines (d : ℕ) (m : Member) : Text :=
  newline (d + 1) ++ '"' :: m.1.2.1 ++ '"' :: ':' :: ' ' :: (layout (d + 1) m.2.2.1).text

/-- the members as they are printed, up to the end of the last line -/
def body (d : ℕ) (members : List Member) : Text := [','].intercalate (members.map (memberLines d))

/-! ## The same value -/

theorem newline_blank (d : ℕ) : Blank (newline d) := by
  intro c hc
  rcases List.mem_cons.1 hc with rfl | hc
  · rfl
  · rw [List.eq_of_mem_replicate hc]
    rfl

theorem layoutItems_values (d : ℕ) (items : List Item) :
    (layoutItems d items).map (fun i => i.2.1) = items.map fun i => layout (d + 1) i.2.1 := by
  induction items with
  | nil => simp [layoutItems]
  | cons i items ih => rw [layoutItems, List.map_cons, ih, List.map_cons]

theorem layoutMembers_values (d : ℕ) (last : Text) (members : List Member) :
    (layoutMembers d last members).map (fun m => (m.1.2.1, m.2.2.1)) =
      members.map fun m => (m.1.2.1, layout (d + 1) m.2.2.1) := by
  induction members with
  | nil => simp [layoutMembers]
  | cons m members ih => rw [layoutMembers, List.map_cons, ih, List.map_cons]

theorem mem_layoutItems {d : ℕ} {items : List Item} {i : Item} (h : i ∈ layoutItems d items) :
    i.1 = newline (d + 1) ∧ (i.2.2 = newline d ∨ i.2.2 = []) ∧ ∃ j ∈ items, i.2.1 = layout (d + 1) j.2.1 := by
  induction items with
  | nil => simp [layoutItems] at h
  | cons j items ih =>
    rw [layoutItems] at h
    rcases List.mem_cons.1 h with rfl | h
    · refine ⟨rfl, ?_, j, List.mem_cons_self, rfl⟩
      by_cases he : items.isEmpty = true
      · exact Or.inl (if_pos he)
      · exact Or.inr (if_neg he)
    · obtain ⟨h1, h2, k, hk, h3⟩ := ih h
      exact ⟨h1, h2, k, List.mem_cons_of_mem j hk, h3⟩

theorem mem_layoutMembers {d : ℕ} {last : Text} {members : List Member} {m : Member}
    (h : m ∈ layoutMembers d last members) : m.1.1 = newline (d + 1) ∧ m.1.2.2 = [] ∧ m.2.1 = [' '] ∧
      (m.2.2.2 = last ∨ m.2.2.2 = []) ∧ ∃ n ∈ members, m.1.2.1 = n.1.2.1 ∧ m.2.2.1 = layout (d + 1) n.2.2.1 := by
  induction members with
  | nil => simp [layoutMembers] at h
  | cons n members ih =>
    rw [layoutMembers] at h
    rcases List.mem_cons.1 h with rfl | h
    · refine ⟨rfl, rfl, rfl, ?_, n, List.mem_cons_self, rfl, rfl⟩
      by_cases he : members.isEmpty = true
      · exact Or.inl (if_pos he)
      · exact Or.inr (if_neg he)
    · obtain ⟨h1, h2, h3, h4, k, hk, h5⟩ := ih h
      exact ⟨h1, h2, h3, h4, k, List.mem_cons_of_mem n hk, h5⟩

/-- the members of an object, laid out at any depth, are good -/
theorem layoutMembers_good {d : ℕ} {last : Text} (hlast : Blank last) {members : List Member}
    (hk : ∀ m ∈ members, LegalStr m.1.2.1) (h : ∀ m ∈ members, Valid (layout (d + 1) m.2.2.1)) :
    ∀ m ∈ layoutMembers d last members, GoodMember m := by
  intro m hm
  obtain ⟨h1, h2, h3, h4, n, hn, h5, h6⟩ := mem_layoutMembers hm
  refine ⟨⟨?_, ?_, ?_⟩, ?_, ?_, ?_⟩
  · rw [h1]
    exact newline_blank _
  · rw [h5]
    exact hk n hn
  · rw [h2]
    exact nil_blank
  · rw [h3]
    exact fun c hc => List.mem_singleton.1 hc ▸ rfl
  · rw [h6]
    exact h n hn
  · rcases h4 with h4 | h4 <;> rw [h4]
    · exact hlast
    · exact nil_blank

theorem layout_valid {v : Value} (hv : Valid v) (d : ℕ) : Valid (layout d v) := by
  induction hv generalizing d with
  | arr _ _ _ _ _ ih =>
    rw [layout]
    refine valid_arr nil_blank (fun _ => rfl) fun i hi => ?_
    obtain ⟨h1, h2, j, hj, h3⟩ := mem_layoutItems hi
    refine ⟨?_, ?_, ?_⟩
    · rw [h1]
      exact newline_blank _
    · rw [h3]
      exact ih j hj _
    · rcases h2 with h2 | h2 <;> rw [h2]
      · exact newline_blank _
      · exact nil_blank
  | obj _ _ hk _ _ _ ih =>
    rw [layout]
    exact valid_obj nil_blank (fun _ => rfl)
      (layoutMembers_good (newline_blank d) (fun m hm => (hk m hm).2.1) fun m hm => ih m hm _)
  | null => exact .null
  | true => exact .true
  | false => exact .false
  | num h => exact .num h
  | str h => exact .str h

theorem zip_of_map_eq {α β : Type} {f g : α → β} {l l' : List α} (h : l'.map f = l.map g) :
    l.length = l'.length ∧ ∀ p ∈ l.zip l', f p.2 = g p.1 := by
  refine ⟨?_, fun p hp => ?_⟩
  · have hlength := congrArg List.length h
    rw [List.length_map, List.length_map] at hlength
    exact hlength.symm
  · induction l generalizing l' with
    | nil => simp at hp
    | cons x l ih =>
      cases l' with
      | nil => simp at hp
      | cons y l' =>
        obtain ⟨h1, h2⟩ := List.cons.inj h
        rcases List.mem_cons.1 hp with rfl | hp
        · exact h1
        · exact ih h2 hp

/-- the members laid out are those of the object -/
theorem members_same {ws ws' : Text} {members laid : List Member} {d : ℕ}
    (hlaid : laid.map (fun m => (m.1.2.1, m.2.2.1)) = members.map fun m => (m.1.2.1, layout (d + 1) m.2.2.1))
    (h : ∀ m ∈ members, Same m.2.2.1 (layout (d + 1) m.2.2.1)) : Same (.obj ws members) (.obj ws' laid) := by
  obtain ⟨hlength, hzip⟩ := zip_of_map_eq hlaid
  refine .obj (List.Perm.refl laid) hlength (fun p hp => ?_) fun p hp => ?_
  · rw [(Prod.mk.inj (hzip p hp)).1]
  · rw [(Prod.mk.inj (hzip p hp)).2]
    exact h _ (List.of_mem_zip hp).1

/-- **The printed value equals the value.** -/
theorem layout_same {v : Value} (hv : Valid v) (d : ℕ) : Same v (layout d v) := by
  induction hv generalizing d with
  | arr _ _ _ _ _ ih =>
    rw [layout]
    obtain ⟨hlength, hzip⟩ := zip_of_map_eq (layoutItems_values d _)
    refine .arr hlength fun p hp => ?_
    rw [hzip p hp]
    exact ih _ (List.of_mem_zip hp).1 _
  | obj _ _ _ _ _ _ ih =>
    rw [layout]
    exact members_same (layoutMembers_values d (newline d) _) fun m hm => ih m hm _
  | null => exact .null
  | true => exact .true
  | false => exact .false
  | num _ => exact .num _
  | str _ => exact .str rfl

theorem members_strings {members laid : List Member} {d : ℕ}
    (hlaid : laid.map (fun m => (m.1.2.1, m.2.2.1)) = members.map fun m => (m.1.2.1, layout (d + 1) m.2.2.1))
    (h : ∀ m ∈ members, strings (layout (d + 1) m.2.2.1) = strings m.2.2.1) :
    stringsMembers laid = stringsMembers members := by
  rw [stringsMembers_eq, stringsMembers_eq]
  calc laid.flatMap (fun m => m.1.2.1 :: strings m.2.2.1)
    _ = (laid.map fun m => (m.1.2.1, m.2.2.1)).flatMap fun p => p.1 :: strings p.2 := by rw [List.flatMap_map]
    _ = members.flatMap fun m => m.1.2.1 :: strings (layout (d + 1) m.2.2.1) := by rw [hlaid, List.flatMap_map]
    _ = members.flatMap fun m => m.1.2.1 :: strings m.2.2.1 := by
      rw [List.flatMap_def, List.flatMap_def, List.map_congr_left fun m hm => by rw [h m hm]]

theorem layout_strings {v : Value} (hv : Valid v) (d : ℕ) : strings (layout d v) = strings v := by
  induction hv generalizing d with
  | @arr ws items _ _ _ _ _ ih =>
    rw [layout, strings, strings, stringsItems_eq, stringsItems_eq]
    calc (layoutItems d items).flatMap (fun i => strings i.2.1)
      _ = ((layoutItems d items).map fun i => i.2.1).flatMap strings := by rw [List.flatMap_map]
      _ = items.flatMap fun i => strings (layout (d + 1) i.2.1) := by rw [layoutItems_values, List.flatMap_map]
      _ = items.flatMap fun i => strings i.2.1 := by
        rw [List.flatMap_def, List.flatMap_def, List.map_congr_left fun i hi => ih i hi (d + 1)]
  | obj _ _ _ _ _ _ ih =>
    rw [layout, strings, strings]
    exact members_strings (layoutMembers_values d (newline d) _) fun m hm => ih m hm _
  | _ => rw [layout]

/-! ## The lines of an object -/

/-- **The text of the members is their lines, the end of the last line and the bracket.** -/
theorem membersText_layout (d : ℕ) (last : Text) {members : List Member} (hne : members ≠ []) :
    membersText (layoutMembers d last members) = body d members ++ last ++ ['\x7d'] := by
  have hmember : ∀ (m : Member) (after : Text), memberText ((newline (d + 1), m.1.2.1, []), [' '],
      layout (d + 1) m.2.2.1, after) = memberLines d m ++ after := by
    intro m after
    simp [memberText, keyText, itemText, memberLines]
  rw [membersText_eq]
  induction members with
  | nil => exact absurd rfl hne
  | cons m members ih =>
    cases members with
    | nil =>
      rw [layoutMembers, layoutMembers, entriesText, moreText, hmember]
      simp [body, List.intercalate]
    | cons n members =>
      have hbody : body d (m :: n :: members) = memberLines d m ++ [','] ++ body d (n :: members) :=
        List.intercalate_cons_cons
      have hlaid : layoutMembers d last (n :: members) ≠ [] := by simp [layoutMembers]
      rw [layoutMembers, entriesText_cons hlaid, ih (List.cons_ne_nil n members), hbody, hmember]
      simp

/-! ## Indentation -/

/-- a property of texts that a text has when its parts have it -/
structure Additive (P : Text → Prop) : Prop where
  nil : P []
  append : ∀ {a b : Text}, P a → P b → P (a ++ b)

section
variable {P : Text → Prop} (hP : Additive P)
include hP

theorem Additive.flatMap {α : Type} {f : α → Text} {xs : List α} (h : ∀ x ∈ xs, P (f x)) : P (xs.flatMap f) := by
  induction xs with
  | nil => exact hP.nil
  | cons x xs ih =>
    rw [List.flatMap_cons]
    exact hP.append (h x List.mem_cons_self) (ih fun y hy => h y (List.mem_cons_of_mem x hy))

theorem Additive.entries {α : Type} {text : α → Text} {close : Char} (hcomma : P [',']) (hclose : P [close])
    {xs : List α} (h : ∀ x ∈ xs, P (text x)) : P (entriesText text close xs) := by
  cases xs with
  | nil => exact hclose
  | cons x xs =>
    rw [entriesText, moreText]
    refine hP.append (h x List.mem_cons_self) (hP.append (hP.flatMap fun y hy => ?_) hclose)
    exact hP.append hcomma (h y (List.mem_cons_of_mem x hy))

theorem Additive.intercalate (hcomma : P [',']) {xs : List Text} (h : ∀ x ∈ xs, P x) :
    P ([','].intercalate xs) := by
  induction xs with
  | nil => exact hP.nil
  | cons x xs ih =>
    cases xs with
    | nil =>
      rw [List.intercalate_singleton]
      exact h x List.mem_cons_self
    | cons y xs =>
      rw [List.intercalate_cons_cons]
      exact hP.append (hP.append (h x List.mem_cons_self) hcomma) (ih fun z hz => h z (List.mem_cons_of_mem x hz))

end

/-- behind every line end there are n blanks -/
def Indented (n : ℕ) (s : Text) : Prop := ∀ a b, s = a ++ '\n' :: b → List.replicate n ' ' <+: b

theorem indented_line {n : ℕ} {s : Text} (h : '\n' ∉ s) : Indented n s := by
  rintro a b rfl
  exact absurd (List.mem_append_right a List.mem_cons_self) h

theorem indented_newline {n d : ℕ} (h : n ≤ d) : Indented n (newline d) := by
  intro a b he
  cases a with
  | nil =>
    rw [← (List.cons.inj he).2]
    exact ⟨List.replicate (d - n) ' ', by rw [← List.replicate_add, Nat.add_sub_cancel' h]⟩
  | cons c a =>
    have hmem : '\n' ∈ List.replicate d ' ' := by
      rw [(List.cons.inj he).2]
      exact List.mem_append_right a List.mem_cons_self
    exact absurd (List.eq_of_mem_replicate hmem) (by decide)

theorem indented_additive (n : ℕ) : Additive (Indented n) where
  nil := indented_line List.not_mem_nil
  append := by
    intro a b ha hb x y he
    rcases List.append_eq_append_iff.1 he with ⟨r, rfl, hr⟩ | ⟨r, rfl, hr⟩
    · -- the line end stands in the second text
      exact hb r y hr
    · cases r with
      | nil => exact hb [] y hr.symm
      | cons c r =>
        obtain ⟨rfl, rfl⟩ := List.cons.inj hr
        exact (ha x r rfl).trans (List.prefix_append r b)

theorem legal_line {raw : Text} (h : LegalStr raw) : '\n' ∉ raw := by
  suffices hstep : ∀ (st : StrState) (raw : Text), raw.foldlM strStep st = some .plain → '\n' ∉ raw from hstep _ raw h
  intro st raw
  induction raw generalizing st with
  | nil => exact fun _ => List.not_mem_nil
  | cons c raw ih =>
    intro hfold hmem
    rw [List.foldlM_cons] at hfold
    obtain ⟨st', hst, hfold⟩ := Option.bind_eq_some_iff.1 hfold
    rcases List.mem_cons.1 hmem with rfl | hmem
    · rcases st with _ | _ | _ | n <;> cases hst
    · exact ih st' hfold hmem

/-- **Printed at depth d, a value has at least d blanks behind every line end.** -/
theorem layout_indented {v : Value} (hv : Valid v) {n d : ℕ} (h : n ≤ d) : Indented n (layout d v).text := by
  have hadd := indented_additive n
  induction hv generalizing d with
  | arr _ _ _ _ _ ih =>
    rw [layout, Value.text, JsonText.itemsText_eq]
    refine hadd.append (a := ['[']) (indented_line (by decide))
      (hadd.entries (indented_line (by decide)) (indented_line (by decide)) fun i hi => ?_)
    obtain ⟨h1, h2, j, hj, h3⟩ := mem_layoutItems hi
    rw [itemText, h1, h3]
    refine hadd.append (hadd.append (indented_newline (by omega)) (ih j hj (by omega))) ?_
    rcases h2 with h2 | h2 <;> rw [h2]
    · exact indented_newline h
    · exact hadd.nil
  | @obj ws members _ _ hk _ _ _ ih =>
    rw [layout, Value.text, membersText_eq]
    refine hadd.append (a := ['\x7b']) (indented_line (by decide)) ?_
    refine hadd.entries (indented_line (by decide)) (indented_line (by decide)) fun m hm => ?_
    obtain ⟨h1, h2, h3, h4, j, hj, h5, h6⟩ := mem_layoutMembers hm
    have hkey : Indented n (keyText m.1) := by
      rw [keyText, h1, h2, h5]
      have hquoted : Indented n ('"' :: j.1.2.1) :=
        hadd.append (a := ['"']) (indented_line (by decide)) (indented_line (legal_line (hk j hj).2.1))
      exact hadd.append (hadd.append (hadd.append (indented_newline (by omega)) hquoted) (indented_line (by decide)))
        (indented_line (by decide))
    rw [memberText, itemText, h3, h6]
    refine hadd.append hkey (hadd.append (hadd.append (indented_line (by decide)) (ih j hj (by omega))) ?_)
    rcases h4 with h4 | h4 <;> rw [h4]
    · exact indented_newline h
    · exact hadd.nil
  | num hn => exact indented_line fun hmem => absurd (isNumber_chars hn _ hmem) (by decide)
  | str hs =>
    refine hadd.append (a := ['"']) (indented_line (by decide)) (hadd.append (indented_line (legal_line hs)) ?_)
    exact indented_line (by decide)
  | _ =>
    rw [layout]
    exact indented_line (by decide)

/-- **The lines of an object at depth d have a blank more.** -/
theorem body_indented {members : List Member} {d : ℕ} (hk : ∀ m ∈ members, LegalStr m.1.2.1)
    (hv : ∀ m ∈ members, Valid m.2.2.1) : Indented (d + 1) (body d members) := by
  have hadd := indented_additive (d + 1)
  refine hadd.intercalate (indented_line (by decide)) fun line hline => ?_
  obtain ⟨m, hm, rfl⟩ := List.mem_map.1 hline
  have hquoted : Indented (d + 1) ('"' :: m.1.2.1) :=
    hadd.append (a := ['"']) (indented_line (by decide)) (indented_line (legal_line (hk m hm)))
  refine hadd.append (hadd.append (indented_newline le_rfl) hquoted) ?_
  exact hadd.append (a := ['"', ':', ' ']) (indented_line (by decide)) (layout_indented (hv m hm) le_rfl)

/-- **The lines of an indented text begin with blanks**, but for the first. -/
theorem indented_lines {n : ℕ} {s : Text} (h : Indented n s) : ∀ l ∈ (s.splitOn '\n').tail,
    List.replicate n ' ' <+: l := by
  induction s with
  | nil => simp
  | cons c s ih =>
    have hs : Indented n s := fun a b he => h (c :: a) b (by rw [he, List.cons_append])
    obtain ⟨rest, hrest⟩ := Shell.splitOn_head '\n' s
    rw [hrest, List.tail_cons] at ih
    rw [List.splitOn_cons_eq_if_modifyHead, hrest]
    by_cases hc : c = '\n'
    · subst hc
      have hblanks := h [] s rfl
      have hfirst : List.replicate n ' ' <+: s.takeWhile fun c => decide (c ≠ '\n') := by
        obtain ⟨t, rfl⟩ := hblanks
        rw [List.takeWhile_append_of_pos fun c hc => ?_]
        · exact List.prefix_append _ _
        · rw [List.eq_of_mem_replicate hc]
          rfl
      rw [beq_self_eq_true, if_pos rfl, List.tail_cons]
      intro l hl
      rcases List.mem_cons.1 hl with rfl | hl
      · exact hfirst
      · exact ih hs l hl
    · rw [beq_false_of_ne hc, if_neg Bool.false_ne_true, List.modifyHead_cons, List.tail_cons]
      exact ih hs

end IconSetup.JsonLayout
