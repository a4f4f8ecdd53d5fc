/-
What COPY reads back from the rows that gen_geo_etl.awk prints. The program escapes nothing, so a field with a tab, a
backslash or a carriage return in it is not read as it is, unless the whole field happens to be `\N`.

- `fields_clean`: the fields of a record are clean if and only if its free texts are; full names, numbers and the
  country always are.
- `row_clean`: a row whose columns are NULL or their own texts has clean fields, whatever the separators that got lost
  and those that came in.
- `read_back`: COPY reads exactly one row for each live record, with each column NULL or its own text, if and only if
  the free texts of every live record are clean.
-/
import Mathlib.Tactic
import IconSetup.Core.CopyText
import IconSetup.Geocode.Etl

namespace IconSetup.ReadBack

open IconSetup.CopyText IconSetup.Etl

variable (sp : SpaceClass)

/-! ## Fields -/

def Plain (t : Text) : Prop := '\t' ∉ t ∧ '\\' ∉ t ∧ '\r' ∉ t ∧ '\n' ∉ t

instance (t : Text) : Decidable (Plain t) := by unfold Plain; infer_instance

def nameTables : List (List (String × String)) := [provinces, streetTypes, streetDirsQuebec, streetDirs]

/-- the full names are plain and not empty; the abbreviations are neither empty nor `\N` -/
theorem names_known : ∀ names ∈ nameTables, ∀ p ∈ names,
    Plain p.2.toList ∧ p.2.toList ≠ [] ∧ p.1.toList ≠ null ∧ p.1.toList ≠ [] := by
  decide +kernel

theorem dirsOf_mem (provAbbr : Text) : dirsOf provAbbr ∈ nameTables := by
  unfold dirsOf
  split_ifs <;> simp [nameTables]

theorem lookup_mem {names : List (String × String)} {abbr t : Text} (h : lookup names abbr = some t) :
    ∃ p ∈ names, p.1.toList = abbr ∧ p.2.toList = t := by
  obtain ⟨p, hp, rfl⟩ := Option.map_eq_some_iff.1 h
  have habbr := List.find?_some hp
  exact ⟨p, List.mem_of_find?_eq_some hp, of_decide_eq_true habbr, rfl⟩

theorem lookup_plain {names : List (String × String)} (hn : names ∈ nameTables) (abbr : Text) :
    ∀ t ∈ lookup names abbr, Plain t := by
  intro t ht
  obtain ⟨p, hp, -, rfl⟩ := lookup_mem ht
  exact (names_known names hn p hp).1

theorem lookup_null {names : List (String × String)} (hn : names ∈ nameTables) : lookup names null = none := by
  apply Option.eq_none_iff_forall_ne_some.2
  intro t ht
  obtain ⟨p, hp, habbr, -⟩ := lookup_mem ht
  exact (names_known names hn p hp).2.2.1 habbr

theorem isNumber_plain {s : Text} (h : isNumber s = true) : Plain s := by
  have hdigit : ∀ c ∈ s, isDigit c = true := List.all_eq_true.1 (Bool.and_eq_true_iff.1 h).2
  refine ⟨fun hm => ?_, fun hm => ?_, fun hm => ?_, fun hm => ?_⟩ <;> exact absurd (hdigit _ hm) (by decide)

theorem null_or (s : Text) : orNull s = null ∨ some s = some (orNull s) := by
  unfold orNull
  split_ifs
  · exact Or.inl rfl
  · exact Or.inr rfl

theorem null_or_number (s : Text) : numberOrNull s = null ∨ some s = some (numberOrNull s) := by
  unfold numberOrNull
  split_ifs
  · exact Or.inr rfl
  · exact Or.inl rfl

theorem null_or_getD (o : Option Text) : o.getD null = null ∨ o = some (o.getD null) := by
  cases o with
  | none => exact Or.inl rfl
  | some t => exact Or.inr rfl

theorem null_or_orNull_getD (o : Option Text) : orNull (o.getD null) = null ∨ o = some (orNull (o.getD null)) := by
  cases o with
  | none => exact Or.inl rfl
  | some t => exact null_or t

/-- the printed full direction is the one of the direction that the record has -/
theorem getFullStreetDir_eq (line : Text) :
    getFullStreetDir (prov sp line) ((stDir sp line).getD null) =
      ((stDir sp line).bind (lookup (dirsOf (prov sp line)))).getD null := by
  rw [getFullStreetDir]
  cases stDir sp line with
  | none => rw [Option.getD_none, lookup_null (dirsOf_mem _), Option.bind_none]
  | some t => rfl

/-- each printed field is `\N` or the column's own text -/
theorem fields_own (line : Text) :
    List.Forall₂ (fun f text => f = null ∨ text = some f) (fields sp line) (own sp line) := by
  rw [fields_eq, address, getFullStreetDir_eq]
  refine .cons (Or.inr rfl) (.cons (Or.inr rfl) (.cons (Or.inr rfl) (.cons (null_or_getD _) (.cons (Or.inr rfl)
    (.cons (null_or _) (.cons (null_or_getD _) (.cons (null_or_orNull_getD _) (.cons (null_or_getD _)
    (.cons (null_or_number _) (.cons (null_or_number _) (.cons (null_or_orNull_getD _)
    (.cons (Or.inr rfl) .nil))))))))))))

theorem plain_clean {t : Text} (h : Plain t) : Clean t := Or.inr ⟨h.1, h.2.1, h.2.2.1⟩

theorem clean_orNull (s : Text) : Clean (orNull s) ↔ Clean s := by
  unfold orNull
  split_ifs with h
  · rw [h]
    exact iff_of_true (Or.inl rfl) (by decide)
  · rfl

theorem clean_getD {o : Option Text} : Clean (o.getD null) ↔ ∀ t ∈ o, Clean t := by
  cases o with
  | none => exact iff_of_true (Or.inl rfl) fun t ht => (by cases ht)
  | some t => simp

theorem clean_lookup {names : List (String × String)} (hn : names ∈ nameTables) (abbr : Text) :
    Clean ((lookup names abbr).getD null) :=
  clean_getD.2 fun t ht => plain_clean (lookup_plain hn abbr t ht)

theorem clean_number (s : Text) : Clean (numberOrNull s) := by
  unfold numberOrNull
  split_ifs with h
  · exact plain_clean (isNumber_plain h)
  · exact Or.inl rfl

/-- the fields of a record are clean if and only if its free texts are -/
theorem fields_clean (line : Text) : (∀ f ∈ fields sp line, Clean f) ↔ ∀ t ∈ free sp line, Clean t := by
  have hprov : Clean (getFullProv (prov sp line)) := clean_lookup (by simp [nameTables]) _
  have htype : Clean (getFullStreetType (stType sp line)) := clean_lookup (by simp [nameTables]) _
  have hdir : Clean (getFullStreetDir (prov sp line) ((stDir sp line).getD null)) := clean_lookup (dirsOf_mem _) _
  have hcountry : Clean "CANADA".toList := by decide
  simp only [fields_eq, address, numbers, routeAndCountry, free, List.forall_mem_append, List.forall_mem_cons,
    List.not_mem_nil, clean_orNull, clean_getD, clean_number, hprov, htype, hdir, hcountry, Option.mem_toList]
  tauto

theorem substr_sublist (s : Text) (m n : ℕ) : (substr s m n).Sublist s :=
  (List.take_sublist _ _).trans (List.drop_sublist _ _)

theorem trimRight_sublist (s : Text) : (trimRight sp s).Sublist s := (List.rdropWhile_prefix _ s).sublist

theorem removeSpaces_sublist (s : Text) : (removeSpaces sp s).Sublist s := List.filter_sublist

theorem trimRight_substr (line : Text) (m n : ℕ) : (trimRight sp (substr line m n)).Sublist line :=
  (trimRight_sublist sp _).trans (substr_sublist line m n)

theorem removeSpaces_substr (line : Text) (m n : ℕ) : (removeSpaces sp (substr line m n)).Sublist line :=
  (removeSpaces_sublist sp _).trans (substr_sublist line m n)

theorem stDir_sublist {line t : Text} (h : t ∈ stDir sp line) : t.Sublist line := by
  rw [mem_stDir h]
  exact removeSpaces_substr sp line 71 2

theorem route_sublist {line t : Text} (h : t ∈ route sp line) : t.Sublist line := by
  obtain ⟨m, rfl⟩ := mem_route h
  exact trimRight_substr sp line m 6

theorem stNumFrom_sublist (line : Text) : (stNumFrom sp line).Sublist line := by
  obtain ⟨m, n, -, h⟩ := stNumFrom_eq sp line
  rw [h]
  exact trimRight_substr sp line m n

theorem stNumTo_sublist (line : Text) : (stNumTo sp line).Sublist line := by
  obtain ⟨m, n, -, h⟩ := stNumTo_eq sp line
  rw [h]
  exact trimRight_substr sp line m n

theorem stDirFull_plain {line t : Text} (h : t ∈ (stDir sp line).bind (lookup (dirsOf (prov sp line)))) : Plain t := by
  obtain ⟨d, -, hd⟩ := Option.bind_eq_some_iff.1 h
  exact lookup_plain (dirsOf_mem _) d t hd

/-- a column's text comes from the record or is made of plain characters -/
theorem own_source (line : Text) : ∀ text ∈ own sp line, ∀ t ∈ text, t.Sublist line ∨ Plain t := by
  have hsome : ∀ s t : Text, t ∈ some s → s.Sublist line → t.Sublist line ∨ Plain t :=
    fun s t ht hs => Or.inl (Option.mem_some_iff.1 ht ▸ hs)
  intro text htext t ht
  simp only [own, ownAddress, ownNumbers, ownRoute, List.mem_append, List.mem_cons, List.not_mem_nil,
    or_false] at htext
  rcases htext with ((rfl | rfl | rfl | rfl | rfl | rfl | rfl | rfl | rfl) | (rfl | rfl)) | (rfl | rfl)
  · exact hsome _ t ht (removeSpaces_substr sp line 168 6)
  · exact hsome _ t ht (trimRight_substr sp line 113 30)
  · exact hsome _ t ht (trimRight_substr sp line 3 2)
  · exact Or.inr (lookup_plain (by simp [nameTables]) _ t ht)
  · exact hsome _ t ht (trimRight_substr sp line 35 30)
  · exact hsome _ t ht (removeSpaces_substr sp line 65 6)
  · exact Or.inr (lookup_plain (by simp [nameTables]) _ t ht)
  · exact Or.inl (stDir_sublist sp ht)
  · exact Or.inr (stDirFull_plain sp ht)
  · exact hsome _ t ht (stNumFrom_sublist sp line)
  · exact hsome _ t ht (stNumTo_sublist sp line)
  · exact Or.inl (route_sublist sp ht)
  · rw [← Option.mem_some_iff.1 ht]
    exact Or.inr (by decide)

theorem fields_newline {line : Text} (h : '\n' ∉ line) : ∀ f ∈ fields sp line, '\n' ∉ f := by
  intro f hf
  obtain ⟨i, hi, rfl⟩ := List.getElem_of_mem hf
  have hown := fields_own sp line
  have hiown : i < (own sp line).length := hown.length_eq ▸ hi
  rcases hown.get hi hiown with hnull | htext
  · simp only [List.get_eq_getElem] at hnull
    rw [hnull]
    decide
  · rcases own_source sp line _ (List.get_mem _ ⟨i, hiown⟩) _ htext with hsub | hplain
    · exact fun hm => h (hsub.subset hm)
    · exact hplain.2.2.2

/-! ## Rows -/

def row (line : Text) : Text := joined '\t' (fields sp line)

/-- a row ends in its country -/
theorem row_escEnd (line : Text) : escEnd false (row sp line) = false := by
  have hfields : fields sp line =
      (address sp line ++ numbers sp line ++ [orNull ((route sp line).getD null)]) ++ ["CANADA".toList] :=
    fields_eq sp line
  rw [row, hfields, escEnd_joined (by decide) (by simp)]
  decide

theorem row_newline {line : Text} (h : '\n' ∉ line) : '\n' ∉ row sp line := by
  intro hm
  rcases mem_joined hm with he | ⟨f, hf, hm⟩
  · exact absurd he (by decide)
  · exact fields_newline sp h f hf hm

theorem tabs_some {s t : Text} (h : t ∈ some s) : List.count '\t' t ≤ List.count '\t' s := by
  rw [Option.mem_some_iff.1 h]

theorem tabs_orNull {s t : Text} (h : t ∈ some s) : List.count '\t' t ≤ List.count '\t' (orNull s) := by
  rw [← Option.mem_some_iff.1 h, orNull]
  split_ifs with he
  · rw [he]; exact Nat.zero_le _
  · exact le_rfl

theorem tabs_getD {o : Option Text} {t : Text} (h : t ∈ o) : List.count '\t' t ≤ List.count '\t' (o.getD null) := by
  rw [Option.mem_def.1 h]
  exact le_rfl

theorem tabs_orNull_getD {o : Option Text} {t : Text} (h : t ∈ o) :
    List.count '\t' t ≤ List.count '\t' (orNull (o.getD null)) := by
  rw [Option.mem_def.1 h]
  exact tabs_orNull rfl

theorem address_tabs (line : Text) : NoMoreTabs (address sp line) (ownAddress sp line) := by
  rw [address, getFullStreetDir_eq]
  exact .cons (fun _ => tabs_some) (.cons (fun _ => tabs_some) (.cons (fun _ => tabs_some) (.cons (fun _ => tabs_getD)
    (.cons (fun _ => tabs_some) (.cons (fun _ => tabs_orNull) (.cons (fun _ => tabs_getD)
    (.cons (fun _ => tabs_orNull_getD) (.cons (fun _ => tabs_getD) .nil))))))))

theorem route_tabs (line : Text) : NoMoreTabs (routeAndCountry sp line) (ownRoute sp line) :=
  .cons (fun _ => tabs_orNull_getD) (.cons (fun _ => tabs_some) .nil)

/-- full names and numbers end the parts of a row that are cut for certain -/
theorem row_pieces (line : Text) :
    pieces '\t' (row sp line) = pieces '\t' (joined '\t' (address sp line)) ++ numbers sp line ++
      pieces '\t' (joined '\t' (routeAndCountry sp line)) := by
  have hnumbers : ∀ f ∈ numbers sp line, Clean f := by
    intro f hf
    simp only [numbers, List.mem_cons, List.not_mem_nil, or_false] at hf
    rcases hf with rfl | rfl
    · exact clean_number _
    · exact clean_number _
  have hcut : pieces '\t' (joined '\t' (numbers sp line)) = numbers sp line :=
    pieces_joined (by decide) (List.cons_ne_nil _ _) (fun f hf => escEnd_clean (hnumbers f hf))
      fun f hf => tab_clean (hnumbers f hf)
  have haddress : escEnd false (joined '\t' (address sp line)) = false := by
    have hlast : address sp line = (address sp line).dropLast ++
        [getFullStreetDir (prov sp line) ((stDir sp line).getD null)] := rfl
    rw [hlast, escEnd_joined (by decide) (by simp [address])]
    exact escEnd_clean (clean_lookup (dirsOf_mem _) _)
  have hnum : escEnd false (joined '\t' (numbers sp line)) = false := by
    rw [show numbers sp line = [numberOrNull (stNumFrom sp line)] ++ [numberOrNull (stNumTo sp line)] from rfl,
      escEnd_joined (by decide) (List.cons_ne_nil _ _)]
    exact escEnd_clean (clean_number _)
  have hA : address sp line ≠ [] := List.cons_ne_nil _ _
  have hN : numbers sp line ≠ [] := List.cons_ne_nil _ _
  have hR : routeAndCountry sp line ≠ [] := List.cons_ne_nil _ _
  rw [row, fields_eq, List.append_assoc, pieces_joined_append (by decide) hA (List.append_ne_nil_of_left_ne_nil hN _)
    haddress, pieces_joined_append (by decide) hN hR hnum, hcut, List.append_assoc]

/-- what a row of the record may be -/
def RowOf (line : Text) (values : List (Option (List UInt8))) : Prop := List.Forall₂ Reads (own sp line) values

/-- A row whose columns are NULL or their own texts has clean fields. -/
theorem row_clean {line : Text} (hlegal : legal (row sp line) = true)
    (h : RowOf sp line ((pieces '\t' (row sp line)).map column)) : ∀ f ∈ fields sp line, Clean f := by
  have hcut : address sp line = pieces '\t' (joined '\t' (address sp line)) ∧
      routeAndCountry sp line = pieces '\t' (joined '\t' (routeAndCountry sp line)) := by
    rw [RowOf, row_pieces] at h
    exact cut_of_reads (address_tabs sp line) (route_tabs sp line) rfl (piecesFrom_ne_nil _ _ _)
      (piecesFrom_ne_nil _ _ _) (joined_pieces _ _).symm (joined_pieces _ _).symm h
  have hpieces : pieces '\t' (row sp line) = fields sp line := by
    rw [row_pieces, ← hcut.1, ← hcut.2, fields_eq]
  rw [RowOf, hpieces] at h
  exact clean_of_reads hpieces hlegal (fields_own sp line) h

/-! ## The data -/

/-- the records that are not skipped -/
def live (lines : List Text) : List Text := lines.filter fun line => decide (Live line)

/-- One row for each live record, in their order, with each column NULL or its own text; and the row is the one that is
read when the record is alone. -/
def ReadsBack (lines : List Text) : Prop :=
  ∃ rows, decode (block sp lines) = some rows ∧
    List.Forall₂ (fun line values => values.length = 13 ∧ RowOf sp line values ∧
      decode (block sp [line]) = some [values]) (live lines) rows

theorem decode_block {lines : List Text} (h : ∀ line ∈ lines, '\n' ∉ line) :
    decode (block sp lines) =
      if ∀ line ∈ live lines, legal (row sp line) = true then
        some ((live lines).map fun line => (pieces '\t' (row sp line)).map column)
      else none := by
  have hrows : rowsFrom sp {} lines = (live lines).map (row sp) := rowsFrom_eq sp {} lines
  have hesc : ∀ r ∈ (live lines).map (row sp), escEnd false r = false := by
    intro r hr
    obtain ⟨line, -, rfl⟩ := List.mem_map.1 hr
    exact row_escEnd sp line
  have hin : ∀ r ∈ (live lines).map (row sp), '\n' ∉ r := by
    intro r hr
    obtain ⟨line, hline, rfl⟩ := List.mem_map.1 hr
    exact row_newline sp (h line (List.mem_filter.1 hline).1)
  rw [block, hrows, decode_printed hesc hin, List.map_map]
  exact if_congr List.forall_mem_map rfl rfl

theorem pieces_of_clean {line : Text} (h : ∀ f ∈ fields sp line, Clean f) :
    pieces '\t' (row sp line) = fields sp line := by
  have hne : fields sp line ≠ [] := by rw [fields_eq]; exact List.cons_ne_nil _ _
  exact pieces_joined (by decide) hne (fun f hf => escEnd_clean (h f hf)) fun f hf => tab_clean (h f hf)

theorem legal_of_clean {line : Text} (h : ∀ f ∈ fields sp line, Clean f) : legal (row sp line) = true :=
  (legal_joined (by decide) (by decide) fun f hf => escEnd_clean (h f hf)).2 fun f hf => legal_clean (h f hf)

/-- where all fields are clean, the data is read field by field -/
theorem decode_clean {lines : List Text} (h : ∀ line ∈ lines, '\n' ∉ line)
    (hclean : ∀ line ∈ live lines, ∀ f ∈ fields sp line, Clean f) :
    decode (block sp lines) = some ((live lines).map fun line => (fields sp line).map column) := by
  rw [decode_block sp h, if_pos fun line hline => legal_of_clean sp (hclean line hline)]
  refine congrArg some (List.map_congr_left fun line hline => ?_)
  rw [pieces_of_clean sp (hclean line hline)]

theorem live_clean (lines : List Text) : (∀ line ∈ lines, Live line → ∀ t ∈ free sp line, Clean t) ↔
    ∀ line ∈ live lines, ∀ f ∈ fields sp line, Clean f := by
  simp only [fields_clean, live, List.mem_filter, decide_eq_true_eq, and_imp]

/-- **COPY reads the data back if and only if the free texts of every live record are clean**: without a tab, a
backslash or a carriage return, or exactly `\N`. -/
theorem read_back (lines : List Text) (h : ∀ line ∈ lines, '\n' ∉ line) :
    ReadsBack sp lines ↔ ∀ line ∈ lines, Live line → ∀ t ∈ free sp line, Clean t := by
  rw [live_clean]
  refine ⟨fun hread line hline => ?_, fun hclean => ?_⟩
  · obtain ⟨rows, hrows, hall⟩ := hread
    rw [decode_block sp h] at hrows
    split_ifs at hrows with hlegal
    rw [← Option.some.inj hrows, List.forall₂_map_right_iff, List.forall₂_same] at hall
    exact row_clean sp (hlegal line hline) (hall line hline).2.1
  · refine ⟨_, decode_clean sp h hclean, ?_⟩
    rw [List.forall₂_map_right_iff, List.forall₂_same]
    intro line hline
    have hrow : RowOf sp line ((fields sp line).map column) := reads_of_clean (fields_own sp line) (hclean line hline)
    have hmem := List.mem_filter.1 hline
    have halone : live [line] = [line] := List.filter_cons_of_pos hmem.2
    refine ⟨hrow.length_eq.symm, hrow, ?_⟩
    rw [decode_clean sp (List.forall_mem_singleton.2 (h line hmem.1)), halone]
    · rfl
    · rw [halone]
      exact List.forall_mem_singleton.2 (hclean line hline)

def pad (n : ℕ) (s : String) : Text := s.toList ++ List.replicate (n - s.toList.length) ' '

/-- an address record of the municipality `mun` -/
def sample (mun : String) : Text :=
  pad 34 "11ON" ++ pad 30 "MAIN" ++ pad 9 "ST" ++ pad 26 "000010" ++ pad 13 "000002" ++ pad 55 mun ++ pad 12 "M5V2T6" ++
    "A".toList

/-- an address record, a short lock box record, and a deleted record with a tab -/
def samples : List Text := [sample "TORONTO", pad 84 "31ON" ++ pad 5 "00012", '1' :: '\t' :: pad 177 "" ++ ['D']]

theorem samples_read_back :
    (∀ line ∈ samples, '\n' ∉ line) ∧ (∀ line ∈ samples, Live line → ∀ t ∈ free posix line, Clean t) ∧
      ReadsBack posix samples := by
  have hnl : ∀ line ∈ samples, '\n' ∉ line := by decide +kernel
  have hclean : ∀ line ∈ samples, Live line → ∀ t ∈ free posix line, Clean t := by decide +kernel
  exact ⟨hnl, hclean, (read_back posix samples hnl).2 hclean⟩

/-- a backslash in a municipality is lost -/
theorem backslash_lost : ¬ ∀ lines : List Text, (∀ line ∈ lines, '\n' ∉ line) → ReadsBack posix lines := by
  intro h
  have hdecode : decode (block posix [sample "BACK\\BAY"]) =
      some [[ some "M5V2T6", some "BACKBAY", some "ON", some "ONTARIO", some "MAIN", some "ST", some "Street", none,
        none, some "000002", some "000010", none, some "CANADA" ].map (Option.map fun s => encode s.toList)] := by
    decide +kernel
  have hlive : live [sample "BACK\\BAY"] = [sample "BACK\\BAY"] := by decide +kernel
  obtain ⟨rows, hrows, hall⟩ := h [sample "BACK\\BAY"] (by decide +kernel)
  rw [hdecode] at hrows
  cases hrows
  rw [hlive, List.forall₂_cons] at hall
  exact absurd hall.1.2.1 (by unfold RowOf; decide +kernel)

end IconSetup.ReadBack
