/-
The script that gen_geo_etl.awk prints, as psql runs it on a database of the schema scripts: one COPY, with the table
and the columns that its header names, and the rows that COPY reads from the data. COPY refuses everything when the
table or a column is not there, when a row has another number of values than there are columns, or when a value does
not fit its column's type.

- `header_parsed`: the header names a table geocode.
- `no_geocode`: no run of the scripts, the loading tables and other statements on rows brings a table of that name; the
  schema's is called geocodes.
- `never_loads`: so no file is ever loaded.
- `copy_geocodes`: with the table's name put right, a file with clean records is loaded, with one row for each live
  record: the columns, the types and the lengths agree.
-/
import Mathlib.Tactic
import IconSetup.Core.Run
import IconSetup.Core.Fallible
import IconSetup.Core.Text
import IconSetup.Core.Catalog
import IconSetup.Core.CopyText
import IconSetup.Deploy.Scripts
import IconSetup.Deploy.Redeploy
import IconSetup.Geocode.Etl
import IconSetup.Geocode.ReadBack

namespace IconSetup.LoadScript

open IconSetup.CopyText IconSetup.Etl IconSetup.ReadBack IconSetup.Scripts

/-! ## The header -/

/-- the words of a statement; `word` is the start of the current one -/
def wordsFrom (word : Text) : Text → List Text
  | [] => if word = [] then [] else [word]
  | c :: s =>
    let done := if word = [] then [] else [word]
    if posixSpace c then done ++ wordsFrom [] s
    else if c ∈ ['(', ')', ',', ';'] then done ++ [c] :: wordsFrom [] s
    else wordsFrom (word ++ [c]) s

/-- `COPY table (columns) FROM stdin;` -/
def parseCopy (s : String) : Option (String × List String) :=
  match (wordsFrom [] s.toList).map String.ofList with
  | "COPY" :: table :: "(" :: rest =>
    let columns := (rest.takeWhile (· ≠ ")")).filter (· ≠ ",")
    if rest = columns.intersperse "," ++ [")", "FROM", "stdin", ";"] then some (table, columns) else none
  | _ => none

def copyColumns : List String :=
  [ "postal_code", "city", "province_abbr", "province", "street_name", "street_type", "street_type_full", "street_dir",
    "street_dir_full", "street_from_no", "street_to_no", "rural_route", "country" ]

theorem header_words : (wordsFrom [] header.toList).map String.ofList =
    "COPY" :: "geocode" :: "(" :: (copyColumns.intersperse "," ++ [")", "FROM", "stdin", ";"]) := by
  have hchars : ∃ l, header.toList = l ∧ (wordsFrom [] l).map String.ofList =
      "COPY" :: "geocode" :: "(" :: (copyColumns.intersperse "," ++ [")", "FROM", "stdin", ";"]) := by
    unfold header
    -- the characters of a literal come from its constructor; decoding its bytes is slow
    refine ⟨_, String.toList_append.trans (congrArg₂ (· ++ ·) (String.toList_append.trans
      (congrArg₂ (· ++ ·) String.toList_ofList String.toList_ofList)) String.toList_ofList), ?_⟩
    decide +kernel
  obtain ⟨l, hl, hwords⟩ := hchars
  rw [hl, hwords]

theorem header_parsed : parseCopy header = some ("geocode", copyColumns) := by
  rw [parseCopy, header_words]
  decide

/-! ## COPY -/

/-- the text of a column, when its bytes are UTF-8 -/
def characters (bytes : List UInt8) : Option Text := bytes.toByteArray.utf8Decode?.map Array.toList

def digitsValue (s : Text) : ℕ := s.foldl (fun n c => 10 * n + (c.toNat - '0'.toNat)) 0

/-- a value of type bigint from its digits; the sign and the spaces around them that bigint also takes are left out -/
def bigint (s : Text) : Option ℤ :=
  if isNumber s ∧ digitsValue s < 2 ^ 63 then some (digitsValue s) else none

/-- a text as a value of a column's type; the header names columns of these two types only -/
def cell : SqlType → Text → Option Cell
  | .varchar n, s => (Text.varchar n (String.ofList s)).map Cell.text
  | .bigint, s => (bigint s).map Cell.int
  | _, _ => none

def copyValue (type : SqlType) : Option (List UInt8) → Option Cell
  | none => some .null
  | some bytes => (characters bytes).bind (cell type)

/-- a row of the table: columns that are not listed are NULL, since no column of geocodes has a default or is NOT NULL -/
def copyRow (defs : List Column) (columns : List String) (values : List (Option (List UInt8))) : Option Row :=
  if values.length = columns.length then
    defs.mapM fun c =>
      match (columns.zip values).lookup c.name with
      | none => some .null
      | some value => copyValue c.type value
  else none

/-- the columns of a table, when there is one of the name -/
def columnsOf (db : Scripts.Db) (table : String) : Option (List Column) :=
  (db.objects.find? fun o => decide (o.name = .rel table)).bind fun o =>
    match o.definition with
    | .table defs => some defs
    | _ => none

def copy (db : Scripts.Db) (table : String) (columns : List String) (data : Text) : Option Scripts.Db :=
  (columnsOf db table).bind fun defs =>
    if columns.Nodup ∧ columns ⊆ defs.map Column.name then
      (decode data).bind fun rows => (rows.mapM (copyRow defs columns)).bind fun rows =>
        Catalog.exec db (.write (.rel table) fun old => some (old ++ rows))
    else none

/-- psql runs the script that the program prints for a file; `none` when its COPY fails -/
def loadCanada (sp : SpaceClass) (db : Scripts.Db) (lines : List Text) : Option Scripts.Db :=
  (parseCopy header).bind fun target => copy db target.1 target.2 (block sp lines)

/-- the script is accepted, and geocodes has one row more for each live record -/
def Loads (sp : SpaceClass) (db : Scripts.Db) (lines : List Text) : Prop :=
  ∃ db' rows, loadCanada sp db lines = some db' ∧ rows.length = (live lines).length ∧
    Catalog.rowsOf db' (.rel "geocodes") = Catalog.rowsOf db (.rel "geocodes") ++ rows

/-! ## The table of the header -/

theorem no_geocode {db : Scripts.Db} (h : Redeploy.Reached db) : columnsOf db "geocode" = none := by
  have hall : ∀ o ∈ Redeploy.allObjects, o.name ≠ .rel "geocode" := by decide
  have hfind : (db.objects.find? fun o => decide (o.name = .rel "geocode")) = none :=
    List.find?_eq_none.2 fun o ho he => hall o (h.objects ho) (of_decide_eq_true he)
  rw [columnsOf, hfind, Option.bind_none]

theorem load_refused (sp : SpaceClass) {db : Scripts.Db} (h : Redeploy.Reached db) (lines : List Text) :
    loadCanada sp db lines = none := by
  rw [loadCanada, header_parsed, Option.bind_some, copy, no_geocode h, Option.bind_none]

/-- **No file is ever loaded**, after any runs of the schema scripts, any loads and any statements on rows. -/
theorem never_loads (sp : SpaceClass) (ops : List Redeploy.Op) (lines : List Text) :
    ¬ Loads sp (Run.run Redeploy.step Redeploy.empty ops) lines := by
  rintro ⟨db', rows, hload, -⟩
  have hreached := Run.run_inv Redeploy.step_reached Redeploy.empty ops Redeploy.reached_empty
  rw [load_refused sp hreached lines] at hload
  cases hload

/-- the database that 2_Create_Lookup_DB.sql builds -/
def lookupDb (currentDate : ℤ) : Scripts.Db :=
  Run.run Catalog.step Redeploy.empty (createLookupDb currentDate)

theorem lookupDb_reached (currentDate : ℤ) : Redeploy.Reached (lookupDb currentDate) :=
  Catalog.run_within _ Redeploy.reached_empty (Redeploy.stmts_within currentDate .createLookupDb)

/-- a file with one ordinary record is not loaded into a new database -/
theorem sample_refused : ¬ Loads posix (lookupDb 0) [sample "TORONTO"] := by
  rintro ⟨db', rows, hload, -⟩
  rw [load_refused posix (lookupDb_reached 0)] at hload
  cases hload

/-! ## The table of the schema -/

def textCell (f : Text) : Cell := if f = null then .null else .text (String.ofList f)

def numberCell (f : Text) : Cell := if f = null then .null else .int (digitsValue f)

/-- the row of a record, in the order of the table's columns -/
def geocodeRow (sp : SpaceClass) (line : Text) : Row :=
  [ textCell (removeSpaces sp (substr line 168 6)), textCell (trimRight sp (substr line 113 30)),
    textCell (getFullProv (prov sp line)), textCell (prov sp line), .null, .null,
    textCell (trimRight sp (substr line 35 30)), textCell (orNull (stType sp line)),
    textCell (orNull ((stDir sp line).getD null)), numberCell (numberOrNull (stNumFrom sp line)),
    numberCell (numberOrNull (stNumTo sp line)), textCell (orNull ((route sp line).getD null)),
    textCell "CANADA".toList, textCell (getFullStreetType (stType sp line)),
    textCell (getFullStreetDir (prov sp line) ((stDir sp line).getD null)) ]

theorem characters_encode (s : Text) : characters (encode s) = some s := by
  have h : (encode s).toByteArray.utf8Decode? = some s.toArray := List.utf8Decode?_utf8Encode
  rw [characters, h, Option.map_some]

theorem copyValue_text {n : ℕ} {f : Text} (hc : Clean f) (hn : f.length ≤ n) :
    copyValue (.varchar n) (column f) = some (textCell f) := by
  by_cases hnull : f = null
  · rw [hnull]; rfl
  · have hb : '\\' ∉ f := (hc.resolve_left hnull).2.1
    have hlen : (String.ofList f).toList.length ≤ n := by rwa [String.toList_ofList]
    rw [column_plain hb, copyValue, characters_encode, Option.bind_some, cell, Text.varchar_of_le hlen, textCell,
      if_neg hnull, Option.map_some]

theorem digitsValue_lt {s : Text} (h : ∀ c ∈ s, isDigit c = true) : digitsValue s < 10 ^ s.length := by
  induction s using List.reverseRecOn with
  | nil => decide
  | append_singleton s c ih =>
    have hs := ih fun d hd => h d (List.mem_append_left _ hd)
    have hc : c.toNat - '0'.toNat ≤ 9 := by
      have hd := h c (List.mem_append_right _ (List.mem_singleton.2 rfl))
      have h9 : c ≤ '9' := of_decide_eq_true (Bool.and_eq_true_iff.1 hd).2
      have hle : c.toNat ≤ '9'.toNat := h9
      have h09 : '9'.toNat = '0'.toNat + 9 := rfl
      omega
    rw [digitsValue, List.foldl_append, List.length_append, List.length_singleton, pow_succ]
    change 10 * digitsValue s + (c.toNat - '0'.toNat) < _
    omega

theorem copyValue_number {s : Text} (hlen : s.length ≤ 6) :
    copyValue .bigint (column (numberOrNull s)) = some (numberCell (numberOrNull s)) := by
  unfold numberOrNull
  split_ifs with hnum
  · have hplain := isNumber_plain hnum
    have hnull : s ≠ null := fun he => hplain.2.1 (he ▸ List.mem_cons_self)
    have hlt : digitsValue s < 2 ^ 63 := by
      have hdigits : ∀ c ∈ s, isDigit c = true := List.all_eq_true.1 (Bool.and_eq_true_iff.1 hnum).2
      calc digitsValue s < 10 ^ s.length := digitsValue_lt hdigits
        _ ≤ 10 ^ 6 := Nat.pow_le_pow_right (by decide) hlen
        _ ≤ 2 ^ 63 := by decide
    rw [column_plain hplain.2.1, copyValue, characters_encode, Option.bind_some, cell, bigint, if_pos ⟨hnum, hlt⟩,
      numberCell, if_neg hnull, Option.map_some]
  · rfl

theorem length_substr (s : Text) (m n : ℕ) : (substr s m n).length ≤ n := List.length_take_le _ _

theorem length_trimRight (sp : SpaceClass) (s : Text) (m n : ℕ) : (trimRight sp (substr s m n)).length ≤ n :=
  (trimRight_sublist sp _).length_le.trans (length_substr s m n)

theorem length_removeSpaces (sp : SpaceClass) (s : Text) (m n : ℕ) : (removeSpaces sp (substr s m n)).length ≤ n :=
  (removeSpaces_sublist sp _).length_le.trans (length_substr s m n)

theorem length_orNull {s : Text} {n : ℕ} (hn : 2 ≤ n) (h : s.length ≤ n) : (orNull s).length ≤ n := by
  unfold orNull
  split_ifs
  · exact hn
  · exact h

theorem length_getD {o : Option Text} {n : ℕ} (hn : 2 ≤ n) (h : ∀ t ∈ o, t.length ≤ n) : (o.getD null).length ≤ n := by
  cases o with
  | none => exact hn
  | some t => exact h t rfl

theorem length_lookup {names : List (String × String)} {n : ℕ} (hn : 2 ≤ n)
    (h : ∀ p ∈ names, p.2.toList.length ≤ n) (abbr : Text) : ((lookup names abbr).getD null).length ≤ n := by
  apply length_getD hn
  intro t ht
  obtain ⟨p, hp, -, rfl⟩ := lookup_mem ht
  exact h p hp

theorem length_dirsOf (provAbbr : Text) : ∀ p ∈ dirsOf provAbbr, p.2.toList.length ≤ 20 := by
  unfold dirsOf
  split_ifs
  · decide
  · decide

theorem length_stDir (sp : SpaceClass) (line : Text) : ∀ t ∈ stDir sp line, t.length ≤ 20 := by
  intro t ht
  rw [mem_stDir ht]
  exact (length_removeSpaces sp line 71 2).trans (by decide)

theorem length_route (sp : SpaceClass) (line : Text) : ∀ t ∈ route sp line, t.length ≤ 100 := by
  intro t ht
  obtain ⟨m, rfl⟩ := mem_route ht
  exact (length_trimRight sp line m 6).trans (by decide)

theorem length_stNumFrom (sp : SpaceClass) (line : Text) : (stNumFrom sp line).length ≤ 6 := by
  obtain ⟨m, n, hn, h⟩ := stNumFrom_eq sp line
  rw [h]
  exact (length_trimRight sp line m n).trans hn

theorem length_stNumTo (sp : SpaceClass) (line : Text) : (stNumTo sp line).length ≤ 6 := by
  obtain ⟨m, n, hn, h⟩ := stNumTo_eq sp line
  rw [h]
  exact (length_trimRight sp line m n).trans hn

/-- where the columns of the header are in the table -/
theorem copyRow_eq (postal mun prov provFull stName stType stTypeFull stDir stDirFull stNumFrom stNumTo route country :
    Option (List UInt8)) :
    copyRow geocodesColumns copyColumns [postal, mun, prov, provFull, stName, stType, stTypeFull, stDir, stDirFull,
        stNumFrom, stNumTo, route, country] =
      [ copyValue (.varchar 7) postal, copyValue (.varchar 100) mun, copyValue (.varchar 50) provFull,
        copyValue (.varchar 10) prov, some .null, some .null, copyValue (.varchar 100) stName,
        copyValue (.varchar 20) stType, copyValue (.varchar 20) stDir, copyValue .bigint stNumFrom,
        copyValue .bigint stNumTo, copyValue (.varchar 100) route, copyValue (.varchar 100) country,
        copyValue (.varchar 20) stTypeFull, copyValue (.varchar 20) stDirFull ].mapM id := by
  have hlen : [postal, mun, prov, provFull, stName, stType, stTypeFull, stDir, stDirFull, stNumFrom, stNumTo, route,
      country].length = copyColumns.length := rfl
  rw [copyRow, if_pos hlen, geocodesColumns, copyColumns]
  simp [List.lookup_cons, col]

/-- the columns, the types and the lengths of the header and of the table agree -/
theorem copyRow_geocodes (sp : SpaceClass) {line : Text} (h : ∀ f ∈ fields sp line, Clean f) :
    copyRow geocodesColumns copyColumns ((fields sp line).map column) = some (geocodeRow sp line) := by
  have hprov : (getFullProv (prov sp line)).length ≤ 50 := length_lookup (by decide) (by decide) _
  have htype : (getFullStreetType (stType sp line)).length ≤ 20 := length_lookup (by decide) (by decide +kernel) _
  have hdir : (getFullStreetDir (prov sp line) ((stDir sp line).getD null)).length ≤ 20 :=
    length_lookup (by decide) (length_dirsOf _) _
  have htrim : ∀ m {n k : ℕ}, n ≤ k → (trimRight sp (substr line m n)).length ≤ k :=
    fun m _ _ hk => (length_trimRight sp line m _).trans hk
  have hremove : ∀ m {n k : ℕ}, n ≤ k → (removeSpaces sp (substr line m n)).length ≤ k :=
    fun m _ _ hk => (length_removeSpaces sp line m _).trans hk
  rw [fields_eq] at h ⊢
  simp only [address, numbers, routeAndCountry, List.cons_append, List.nil_append, List.forall_mem_cons] at h
  obtain ⟨h0, h1, h2, h3, h4, h5, h6, h7, h8, -, -, h11, h12, -⟩ := h
  refine (copyRow_eq _ _ _ _ _ _ _ _ _ _ _ _ _).trans (Fallible.mapM_eq_some.2 ?_)
  refine .cons (copyValue_text h0 (hremove 168 (by decide))) (.cons (copyValue_text h1 (htrim 113 (by decide)))
    (.cons (copyValue_text h3 hprov) (.cons (copyValue_text h2 (htrim 3 (by decide))) (.cons rfl (.cons rfl
    (.cons (copyValue_text h4 (htrim 35 (by decide))) ?_))))))
  refine .cons (copyValue_text h5 (length_orNull (by decide) (hremove 65 (by decide))))
    (.cons (copyValue_text h7 (length_orNull (by decide) (length_getD (by decide) (length_stDir sp line))))
    (.cons (copyValue_number (length_stNumFrom sp line)) (.cons (copyValue_number (length_stNumTo sp line)) ?_)))
  exact .cons (copyValue_text h11 (length_orNull (by decide) (length_getD (by decide) (length_route sp line))))
    (.cons (copyValue_text h12 (by decide)) (.cons (copyValue_text h6 htype) (.cons (copyValue_text h8 hdir) .nil)))

/-- **With the name of the schema's table in the header, a file with clean records is loaded**, and geocodes has one row
more for each live record. -/
theorem copy_geocodes (sp : SpaceClass) {db : Scripts.Db} (hdb : columnsOf db "geocodes" = some geocodesColumns)
    {lines : List Text} (hlines : ∀ line ∈ lines, '\n' ∉ line)
    (hclean : ∀ line ∈ lines, Live line → ∀ t ∈ free sp line, Clean t) :
    ∃ db', copy db "geocodes" copyColumns (block sp lines) = some db' ∧
      Catalog.rowsOf db' (.rel "geocodes") =
        Catalog.rowsOf db (.rel "geocodes") ++ (live lines).map (geocodeRow sp) := by
  rw [live_clean] at hclean
  have hname : Name.rel "geocodes" ∈ Catalog.names db.objects := by
    obtain ⟨o, ho, -⟩ := Option.bind_eq_some_iff.1 hdb
    have hfound := List.find?_some ho
    exact List.mem_map.2 ⟨o, List.mem_of_find?_eq_some ho, of_decide_eq_true hfound⟩
  have hrows : ((live lines).map fun line => (fields sp line).map column).mapM
      (copyRow geocodesColumns copyColumns) = some ((live lines).map (geocodeRow sp)) := by
    rw [Fallible.mapM_eq_some, List.forall₂_map_left_iff, List.forall₂_map_right_iff, List.forall₂_same]
    exact fun line hline => copyRow_geocodes sp (hclean line hline)
  have hcolumns : copyColumns.Nodup ∧ copyColumns ⊆ geocodesColumns.map Column.name := by decide
  have hwrite := Catalog.exec_write db hname fun old => some (old ++ (live lines).map (geocodeRow sp))
  obtain ⟨db', hexec, hrowsOf⟩ := Option.map_eq_some_iff.1 hwrite
  refine ⟨db', ?_, hrowsOf⟩
  rw [copy, hdb, Option.bind_some, if_pos hcolumns, decode_clean sp hlines hclean, Option.bind_some, hrows,
    Option.bind_some]
  exact hexec

end IconSetup.LoadScript
