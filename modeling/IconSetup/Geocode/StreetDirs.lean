/-
The street direction of a record, whose spelling depends on the language: SW, W and NW in English, SO, O and NO in
French. getFullStreetDir assigns the province's spelling to its parameter ST_DIR, which is not the variable of `main`
that is printed.

- `fields_split`: the direction and its full name among the printed fields.
- `printed_dir`: the direction is printed as the record spells it, with the full name in the province's language.
- `street_dirs_normalised`: the printed direction is the province's iff the record's is already; two records that
  differ in its spelling alone are printed alike iff they are skipped.
-/
import Mathlib.Tactic
import IconSetup.Core.CopyText
import IconSetup.Geocode.Etl
import IconSetup.Geocode.ReadBack

namespace IconSetup.StreetDirs

open IconSetup.CopyText IconSetup.Etl IconSetup.ReadBack

/-! ## Directions -/

/-- the directions that getFullStreetDir knows, of either language -/
def dirs : List Text := streetDirs.map fun p => p.1.toList

/-- the directions with two spellings, English and French -/
def twinDirs : List (Text × Text) := [(['S', 'W'], ['S', 'O']), (['W'], ['O']), (['N', 'W'], ['N', 'O'])]

/-- the value that getFullStreetDir assigns to its parameter ST_DIR -/
def assignedDir (provAbbr stDir : Text) : Text :=
  if provAbbr = ['Q', 'C'] then
    if stDir = ['S', 'W'] ∨ stDir = ['S', 'O'] then ['S', 'O']
    else if stDir = ['W'] ∨ stDir = ['O'] then ['O']
    else if stDir = ['N', 'W'] ∨ stDir = ['N', 'O'] then ['N', 'O']
    else stDir
  else
    if stDir = ['S', 'W'] ∨ stDir = ['S', 'O'] then ['S', 'W']
    else if stDir = ['W'] ∨ stDir = ['O'] then ['W']
    else if stDir = ['N', 'W'] ∨ stDir = ['N', 'O'] then ['N', 'W']
    else stDir

/-- the directions spelled in the language that is not the province's -/
def otherLanguage (provAbbr : Text) : List Text :=
  if provAbbr = ['Q', 'C'] then twinDirs.map Prod.fst else twinDirs.map Prod.snd

theorem assignedDir_eq (provAbbr d : Text) (hd : d ∈ dirs) : assignedDir provAbbr d = d ↔ d ∉ otherLanguage provAbbr := by
  unfold assignedDir otherLanguage
  split_ifs
  all_goals (revert d; decide)

theorem dirs_known (provAbbr d : Text) (hd : d ∈ dirs) : d ≠ [] ∧ ∃ name, lookup (dirsOf provAbbr) d = some name := by
  have hqc : ∀ d ∈ dirs, (lookup streetDirsQuebec d).isSome = true := by decide
  have hother : ∀ d ∈ dirs, (lookup streetDirs d).isSome = true := by decide
  have hne : ∀ d ∈ dirs, d ≠ [] := by decide
  refine ⟨hne d hd, Option.isSome_iff_exists.1 ?_⟩
  unfold dirsOf
  split_ifs
  · exact hqc d hd
  · exact hother d hd

/-- both spellings have one full name in each language -/
theorem twins_name (provAbbr : Text) : ∀ p ∈ twinDirs,
    p.1 ∈ dirs ∧ p.2 ∈ dirs ∧ p.1 ≠ p.2 ∧ getFullStreetDir provAbbr p.1 = getFullStreetDir provAbbr p.2 := by
  unfold getFullStreetDir dirsOf
  split_ifs <;> decide

/-! ## Records -/

section
variable (sp : SpaceClass)

/-- the direction field of an address or route record -/
def HasDir (line d : Text) : Prop := (recType line = ['1'] ∨ recType line = ['2']) ∧ d = removeSpaces sp (substr line 71 2)

/-- two records of type 1 or 2 that are the same but for the spelling of their direction -/
structure Twins (line line' : Text) : Prop where
  type : recType line = ['1'] ∨ recType line = ['2']
  before : line.take 70 = line'.take 70
  after : line.drop 72 = line'.drop 72
  dirs : (removeSpaces sp (substr line 71 2), removeSpaces sp (substr line' 71 2)) ∈ twinDirs

/-- if the record is printed, the direction is the province's, with its full name in the province's language -/
def PrintsProvincesDir (line d : Text) : Prop :=
  Live line → (fields sp line)[7]? = some (assignedDir (prov sp line) d) ∧
    (fields sp line)[8]? = lookup (dirsOf (prov sp line)) d

/-- the fields before the direction -/
def fieldsBefore (line : Text) : List Text :=
  [ removeSpaces sp (substr line 168 6), trimRight sp (substr line 113 30), prov sp line, getFullProv (prov sp line),
    trimRight sp (substr line 35 30), orNull (stType sp line), getFullStreetType (stType sp line) ]

/-- the fields after the full direction -/
def fieldsAfter (line : Text) : List Text := numbers sp line ++ routeAndCountry sp line

end

section
variable {sp : SpaceClass}

theorem stDir_of {line d : Text} (h : HasDir sp line d) : stDir sp line = some d := by
  rw [stDir, if_pos h.1, h.2]

theorem fields_split {line d : Text} (h : HasDir sp line d) (hne : d ≠ []) :
    fields sp line = fieldsBefore sp line ++ d :: getFullStreetDir (prov sp line) d :: fieldsAfter sp line := by
  have hdir : orNull d = d := if_neg hne
  rw [fields_eq, address, stDir_of h, Option.getD_some, hdir]
  rfl

/-- **The direction is printed as the record spells it**, with the full name in the province's language. -/
theorem printed_dir {line d : Text} (h : HasDir sp line d) (hd : d ∈ dirs) :
    (fields sp line)[7]? = some d ∧ (fields sp line)[8]? = lookup (dirsOf (prov sp line)) d := by
  obtain ⟨hne, name, hname⟩ := dirs_known (prov sp line) d hd
  rw [fields_split h hne, getFullStreetDir, hname]
  exact ⟨rfl, rfl⟩

/-! ## Records that differ in the direction -/

theorem substr_before {a b : Text} (h : a.take 70 = b.take 70) (m n : ℕ) (hm : m - 1 + n ≤ 70) :
    substr a m n = substr b m n := by
  have htake : ∀ s : Text, substr s m n = ((s.take 70).drop (m - 1)).take n := by
    intro s
    rw [substr, List.drop_take, List.take_take, Nat.min_eq_left (by omega)]
  rw [htake a, htake b, h]

theorem substr_after {a b : Text} (h : a.drop 72 = b.drop 72) (m n : ℕ) (hm : 72 ≤ m - 1) :
    substr a m n = substr b m n := by
  have hdrop : ∀ s : Text, substr s m n = ((s.drop 72).drop (m - 1 - 72)).take n := by
    intro s
    rw [substr, List.drop_drop, Nat.add_sub_cancel' hm]
  rw [hdrop a, hdrop b, h]

theorem twins_recType {line line' : Text} (h : Twins sp line line') : recType line = recType line' :=
  substr_before h.before 1 1 (by decide)

theorem twins_live {line line' : Text} (h : Twins sp line line') : Live line ↔ Live line' := by
  rw [Live, Live, twins_recType h, substr_after h.after 180 1 (by decide)]

theorem twins_before {line line' : Text} (h : Twins sp line line') : fieldsBefore sp line = fieldsBefore sp line' := by
  simp only [fieldsBefore, prov, stType, substr_after h.after 168 6 (by decide), substr_after h.after 113 30 (by decide),
    substr_before h.before 3 2 (by decide), substr_before h.before 35 30 (by decide),
    substr_before h.before 65 6 (by decide)]

theorem twins_after {line line' : Text} (h : Twins sp line line') : fieldsAfter sp line = fieldsAfter sp line' := by
  simp only [fieldsAfter, numbers, routeAndCountry, stNumFrom, stNumTo, route, twins_recType h,
    substr_after h.after 150 5 (by decide), substr_after h.after 100 6 (by decide), substr_after h.after 85 5 (by decide),
    substr_after h.after 74 6 (by decide), substr_after h.after 144 6 (by decide), substr_after h.after 85 6 (by decide)]

/-- a row shows which of the two spellings the record has -/
theorem twins_rows {line line' : Text} (h : Twins sp line line') :
    joined '\t' (fields sp line) ≠ joined '\t' (fields sp line') := by
  obtain ⟨hd, hd', hne, hname⟩ := twins_name (prov sp line) _ h.dirs
  have hprov : prov sp line = prov sp line' := by rw [prov, prov, substr_before h.before 3 2 (by decide)]
  have hdir : HasDir sp line (removeSpaces sp (substr line 71 2)) := ⟨h.type, rfl⟩
  have hdir' : HasDir sp line' (removeSpaces sp (substr line' 71 2)) := ⟨twins_recType h ▸ h.type, rfl⟩
  rw [fields_split hdir (dirs_known [] _ hd).1, fields_split hdir' (dirs_known [] _ hd').1, ← twins_before h,
    ← twins_after h, ← hprov, ← hname]
  intro he
  have hcons : fieldsBefore sp line ≠ [] := List.cons_ne_nil _ _
  rw [joined_append '\t' hcons (List.cons_ne_nil _ _), joined_append '\t' hcons (List.cons_ne_nil _ _)] at he
  -- the rows agree before the direction and from the tab behind it on
  have hrest := List.append_cancel_left he
  rw [joined_cons '\t' _ (List.cons_ne_nil _ _), joined_cons '\t' _ (List.cons_ne_nil _ _), List.cons.injEq] at hrest
  exact hne (List.append_cancel_right hrest.2)

end

/-- **A direction is printed in the province's language exactly when the record spells it so.** For a record with a
direction, the printed pair of direction and full name is the province's iff the record is skipped or its direction is
not spelled in the other language. Two records that differ in this spelling alone are printed alike iff they are
skipped. -/
theorem street_dirs_normalised (sp : SpaceClass) :
    (∀ line d, HasDir sp line d → d ∈ dirs →
      (PrintsProvincesDir sp line d ↔ ¬ Live line ∨ d ∉ otherLanguage (prov sp line))) ∧
    ∀ line line' v v', Twins sp line line' → ((main sp v line).2 = (main sp v' line').2 ↔ ¬ Live line) := by
  constructor
  · intro line d h hd
    obtain ⟨habbr, hname⟩ := printed_dir h hd
    rw [PrintsProvincesDir, habbr, hname, ← assignedDir_eq _ _ hd, Option.some.injEq]
    constructor
    · intro hp
      by_cases hl : Live line
      · exact Or.inr (hp hl).1.symm
      · exact Or.inl hl
    · rintro (hl | he) hl'
      · exact absurd hl' hl
      · exact ⟨he.symm, rfl⟩
  · intro line line' v v' h
    rw [main_out, main_out]
    by_cases hl : Live line
    · rw [if_pos hl, if_pos ((twins_live h).1 hl)]
      refine iff_of_false (fun he => ?_) (not_not.2 hl)
      exact twins_rows h (List.cons.inj he).1
    · rw [if_neg hl, if_neg fun hl' => hl ((twins_live h).2 hl')]
      exact iff_of_true rfl hl

/-- an address record of Quebec with the direction `d` -/
def quebecRecord (d : String) : Text := "1 QC".toList ++ List.replicate 66 ' ' ++ d.toList

theorem street_dirs_normalised_sample : PrintsProvincesDir posix (quebecRecord "SO") ['S', 'O'] :=
  ((street_dirs_normalised posix).1 _ _ ⟨by decide, by decide⟩ (by decide)).2 (Or.inr (by decide))

/-- **An English direction stays English in Quebec**, with the full name in French; and a French record prints another
line. -/
theorem english_dir_in_quebec :
    (¬ ∀ sp line d, HasDir sp line d → d ∈ dirs → PrintsProvincesDir sp line d) ∧
      ¬ ∀ sp line line' v v', Twins sp line line' → (main sp v line).2 = (main sp v' line').2 := by
  have hlive : Live (quebecRecord "SW") := by decide
  constructor
  · intro h
    have hdir : HasDir posix (quebecRecord "SW") ['S', 'W'] := ⟨by decide, by decide⟩
    have hprov : prov posix (quebecRecord "SW") = ['Q', 'C'] := by decide
    have hpair := (h posix _ _ hdir (by decide) hlive).1
    rw [(printed_dir hdir (by decide)).1, hprov] at hpair
    exact absurd hpair (by decide)
  · intro h
    have htwins : Twins posix (quebecRecord "SW") (quebecRecord "SO") :=
      ⟨by decide, by decide, by decide, by decide⟩
    have hrows := h posix _ _ {} {} htwins
    rw [main_out, main_out, if_pos hlive, if_pos (by decide)] at hrows
    exact twins_rows htwins (List.cons.inj hrows).1

end IconSetup.StreetDirs
