/-
Blank fields of a record. gen_geo_etl.awk prints `\N` for an empty street type, direction, number or route and for a
full name that it does not know, and prints the postal code, the municipality, the province and the street name as they
are when their spaces are gone.

- `trimRight_eq_nil`, `removeSpaces_eq_nil`: a field comes out empty iff it is blank or missing.
- `blank_null`: which columns are `\N` when the field behind them is blank.
- `blank_fields_null`: a record's blank fields are all NULL, and no column is empty, iff four of its fields are not
  blank.
-/
import Mathlib.Tactic
import IconSetup.Core.CopyText
import IconSetup.Geocode.Etl
import IconSetup.Geocode.ReadBack

namespace IconSetup.BlankFields

open IconSetup.CopyText IconSetup.Etl IconSetup.ReadBack

/-! ## Blank fields -/

/-- a field of spaces only, or one that a short line does not reach -/
def Blank (sp : SpaceClass) (t : Text) : Prop := ∀ c ∈ t, sp.isSpace c = true

instance (sp : SpaceClass) (t : Text) : Decidable (Blank sp t) := List.decidableBAll (fun c => sp.isSpace c = true) t

section
variable (sp : SpaceClass) (line : Text)

/-- the fixed-width field behind each of the first 12 columns, if the record's type has it; COUNTRY is a constant -/
def sourceFields : List (Option Text) :=
  [ some (substr line 168 6), some (substr line 113 30), some (substr line 3 2), some (substr line 3 2),
    some (substr line 35 30), some (substr line 65 6), some (substr line 65 6),
    if recType line = ['1'] ∨ recType line = ['2'] then some (substr line 71 2) else none,
    if recType line = ['1'] ∨ recType line = ['2'] then some (substr line 71 2) else none,
    some (if recType line = ['3'] then substr line 150 5 else substr line 100 6),
    some (if recType line = ['3'] then substr line 85 5 else substr line 74 6),
    if recType line = ['2'] then some (substr line 144 6)
    else if recType line = ['4'] then some (substr line 85 6)
    else none ]

/-- no printed column is empty, and each is `\N` when the field behind it is blank or missing -/
def BlankIsNull : Prop :=
  (∀ f ∈ fields sp line, f ≠ []) ∧
    List.Forall₂ (fun f source => (∀ t ∈ source, Blank sp t) → f = null) ((fields sp line).take 12) (sourceFields line)

/-- the fields that are printed as they are: postal code, municipality, province, street name -/
def uncheckedFields : List Text := [substr line 168 6, substr line 113 30, substr line 3 2, substr line 35 30]

end

section
variable {sp : SpaceClass}

theorem trimRight_eq_nil {t : Text} : trimRight sp t = [] ↔ Blank sp t := List.rdropWhile_eq_nil_iff

theorem removeSpaces_eq_nil {t : Text} : removeSpaces sp t = [] ↔ Blank sp t := by
  simp [removeSpaces, Blank, List.filter_eq_nil_iff]

theorem orNull_ne_nil (t : Text) : orNull t ≠ [] := by
  unfold orNull
  split_ifs with h
  · decide
  · exact h

theorem numberOrNull_ne_nil (t : Text) : numberOrNull t ≠ [] := by
  rw [← orNull_numberOrNull]
  exact orNull_ne_nil _

theorem numberOrNull_nil : numberOrNull [] = null := rfl

/-- the full names are no empty texts -/
theorem lookup_ne_nil {names : List (String × String)} (hn : names ∈ nameTables) (abbr : Text) :
    (lookup names abbr).getD null ≠ [] := by
  cases h : lookup names abbr with
  | none => decide
  | some t =>
    obtain ⟨p, hp, -, rfl⟩ := lookup_mem h
    exact (names_known names hn p hp).2.1

/-- nothing is looked up for an empty abbreviation -/
theorem lookup_nil {names : List (String × String)} (hn : names ∈ nameTables) : lookup names [] = none := by
  apply Option.eq_none_iff_forall_ne_some.2
  intro t ht
  obtain ⟨p, hp, habbr, -⟩ := lookup_mem ht
  exact (names_known names hn p hp).2.2.2 habbr

/-- a column that the program checks for the empty text -/
theorem orNull_blank {t : Text} (h : t = []) : orNull t = null := if_pos h

/-! ## The columns -/

/-- the columns that can be empty are the four the program does not check -/
theorem fields_ne_nil (line : Text) :
    (∀ f ∈ fields sp line, f ≠ []) ↔ ∀ t ∈ uncheckedFields line, ¬ Blank sp t := by
  have hprov : getFullProv (prov sp line) ≠ [] := lookup_ne_nil (by simp [nameTables]) _
  have htype : getFullStreetType (stType sp line) ≠ [] := lookup_ne_nil (by simp [nameTables]) _
  have hdir : getFullStreetDir (prov sp line) ((stDir sp line).getD null) ≠ [] := lookup_ne_nil (dirsOf_mem _) _
  have hcountry : "CANADA".toList ≠ [] := by decide
  simp only [fields_eq, address, numbers, routeAndCountry, uncheckedFields, prov, List.forall_mem_append,
    List.forall_mem_cons, List.not_mem_nil, false_imp_iff, implies_true, and_true, ne_eq, orNull_ne_nil,
    numberOrNull_ne_nil, not_false_eq_true, true_and, removeSpaces_eq_nil, trimRight_eq_nil] at hprov htype hdir ⊢
  tauto

/-- a direction or route column is `\N` when its field is blank or the record has none -/
theorem optional_null {source : Option Text} {trim : Text → Text} (htrim : ∀ t, Blank sp t → trim t = [])
    (h : ∀ t ∈ source, Blank sp t) : orNull ((source.map trim).getD null) = null := by
  cases source with
  | none => rfl
  | some t => exact orNull_blank (htrim t (h t rfl))

theorem stDir_eq (line : Text) : stDir sp line =
    (if recType line = ['1'] ∨ recType line = ['2'] then some (substr line 71 2) else none).map (removeSpaces sp) := by
  unfold stDir
  split_ifs <;> rfl

theorem route_eq (line : Text) : route sp line =
    (if recType line = ['2'] then some (substr line 144 6)
      else if recType line = ['4'] then some (substr line 85 6)
      else none).map (trimRight sp) := by
  unfold route
  split_ifs <;> rfl

/-- a full direction is `\N` when the direction's field is blank or the record has none -/
theorem fullDir_null {provAbbr : Text} {source : Option Text} (h : ∀ t ∈ source, Blank sp t) :
    getFullStreetDir provAbbr ((source.map (removeSpaces sp)).getD null) = null := by
  cases source with
  | none => rw [Option.map_none, Option.getD_none, getFullStreetDir, lookup_null (dirsOf_mem _), Option.getD_none]
  | some t =>
    have ht : removeSpaces sp t = [] := removeSpaces_eq_nil.2 (h t rfl)
    rw [Option.map_some, Option.getD_some, ht, getFullStreetDir, lookup_nil (dirsOf_mem _), Option.getD_none]

/-- where the four unchecked fields are not blank, every blank field is `\N` -/
theorem blank_null {line : Text} (h : ∀ t ∈ uncheckedFields line, ¬ Blank sp t) :
    List.Forall₂ (fun f source => (∀ t ∈ source, Blank sp t) → f = null) ((fields sp line).take 12)
      (sourceFields line) := by
  simp only [uncheckedFields, List.forall_mem_cons, List.not_mem_nil, false_imp_iff, implies_true, and_true] at h
  obtain ⟨hpostal, hmun, hprov, hname⟩ := h
  have hunchecked : ∀ {t f : Text}, ¬ Blank sp t → (∀ x ∈ some t, Blank sp x) → f = null :=
    fun hb hx => absurd (hx _ rfl) hb
  have hnumber : ∀ {t : Text}, (∀ x ∈ some t, Blank sp x) → numberOrNull (trimRight sp t) = null :=
    fun hx => by rw [trimRight_eq_nil.2 (hx _ rfl), numberOrNull_nil]
  have htype : (∀ x ∈ some (substr line 65 6), Blank sp x) → stType sp line = [] :=
    fun hx => removeSpaces_eq_nil.2 (hx _ rfl)
  rw [fields_eq, address, routeAndCountry, stDir_eq, route_eq]
  refine .cons (hunchecked hpostal) (.cons (hunchecked hmun) (.cons (hunchecked hprov) (.cons (hunchecked hprov)
    (.cons (hunchecked hname) (.cons (fun hx => orNull_blank (htype hx)) (.cons (fun hx => ?_) (.cons ?_ (.cons
    fullDir_null (.cons hnumber (.cons hnumber (.cons ?_ .nil)))))))))))
  · rw [htype hx, getFullStreetType, lookup_nil (by simp [nameTables]), Option.getD_none]
  · exact optional_null fun t => removeSpaces_eq_nil.2
  · exact optional_null fun t => trimRight_eq_nil.2

end

/-- **Blank fields become NULL exactly when the four unchecked ones are filled.** A live record is printed as one row;
no column of it is empty and every blank field of it is `\N` iff its postal code, municipality, province and street
name each hold a character that is not a space. -/
theorem blank_fields_null (sp : SpaceClass) (v : Vars) (line : Text) (hl : Live line) :
    (main sp v line).2 = [joined '\t' (fields sp line)] ∧
      (BlankIsNull sp line ↔ ∀ t ∈ uncheckedFields line, ∃ c ∈ t, sp.isSpace c = false) := by
  have hfilled : ∀ t : Text, ¬ Blank sp t ↔ ∃ c ∈ t, sp.isSpace c = false := by
    intro t
    simp [Blank]
  refine ⟨by rw [main_out, if_pos hl], ?_⟩
  simp only [← hfilled]
  constructor
  · intro h; exact (fields_ne_nil line).1 h.1
  · intro h; exact ⟨(fields_ne_nil line).2 h, blank_null h⟩

/-- a street address of Ontario with all four fields, and nothing behind the postal code -/
def filledRecord : Text :=
  "11ON".toList ++ List.replicate 30 ' ' ++ "KING".toList ++ List.replicate 74 ' ' ++ "TORONTO".toList ++
    List.replicate 48 ' ' ++ "M5H1J8".toList

theorem blank_fields_null_filled : Live filledRecord ∧ BlankIsNull posix filledRecord := by
  have hfilled : (uncheckedFields filledRecord).all (fun t => t.any fun c => posix.isSpace c = false) = true := by
    decide
  refine ⟨by decide, (blank_fields_null posix {} filledRecord (by decide)).2.2 ?_⟩
  intro t ht
  obtain ⟨c, hc, hspace⟩ := List.any_eq_true.1 (List.all_eq_true.1 hfilled t ht)
  exact ⟨c, hc, of_decide_eq_true hspace⟩

/-- **A blank postal code is printed as the empty text**: a line of one character, which is an address record. -/
theorem blank_postal_code : ¬ ∀ sp line, Live line → BlankIsNull sp line := by
  intro h
  have hne := (h posix ['1'] (by decide)).1
  rw [fields_ne_nil] at hne
  have hpostal : Blank posix (substr ['1'] 168 6) := by decide
  exact hne _ List.mem_cons_self hpostal

end IconSetup.BlankFields
