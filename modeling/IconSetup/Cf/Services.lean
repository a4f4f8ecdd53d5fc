/-
scripts/services.sh: VCAP_SERVICES, cut out of what `cf env` prints and written to services.json.

The filter is right: the lines between the one that opens the object and the next line of one blank and a bracket are
those of the object, since all of them are indented by two blanks at least. What `echo` does to them is another matter:
a /bin/sh may expand \b, \f, \n, \r, \t and \\, which JSON has as well.

- `captured_eq`: what the filter and the command substitution leave are the lines of the object.
- `services_verbatim`, `services_expanding`: services.json under each treatment.
- `clean_right`: without those escapes services.json is the object.
- `right_clean`: with one of them it is not, however the text may be read. Each character and each code unit has a
  weight, so that no legal string weighs less than what it stands for, and an expanded one never more.
- `services_right_iff`: both.
-/
import Mathlib.Tactic
import IconSetup.Core.Echo

namespace IconSetup.Services

open IconSetup.Shell (Chars subst)
open IconSetup.JsonLex IconSetup.JsonText IconSetup.JsonStrings IconSetup.JsString IconSetup.JsonTokens
open IconSetup.JsonEqual IconSetup.JsonLayout IconSetup.Echo

/-! ## The script -/

def vcapServices : Chars := "VCAP_SERVICES".toList

/-- the line that `/^ "VCAP_SERVICES": \x7b$/` matches -/
def opening : Chars := ' ' :: '"' :: vcapServices ++ ['"', ':', ' ', '\x7b']

/-- the line that `/^ \x7d$/` matches -/
def closing : Chars := [' ', '\x7d']

/-- the lines that awk prints, with the flag before the first of them -/
def awk : Bool → List Chars → List Chars
  | _, [] => []
  | flag, l :: ls =>
    if l = opening then awk true ls
    else if l = closing then awk false ls
    else if flag then l :: awk flag ls
    else awk flag ls

inductive Result where
  | written (servicesJson : Text)
  | notFound (message : Text)
deriving DecidableEq, Repr

def vcapServicesOutput (cfEnv : List Chars) : Text := subst (awk false cfEnv)

/-- the script, with the lines that `cf env` prints -/
def services (treatment : Treatment) (cfEnv : List Chars) : Result :=
  if vcapServicesOutput cfEnv ≠ [] then
    .written (echo treatment ['\x7b'] ++ echo treatment (vcapServicesOutput cfEnv) ++ echo treatment ['\x7d'])
  else .notFound (echo treatment "Application icon-server-devops not found".toList)

/-! ## What it should do -/

/-- VCAP_SERVICES: an object with members -/
structure Vcap where
  members : List Member
  valid : Valid (.obj [] members)
  nonempty : members ≠ []

def Vcap.value (V : Vcap) : Value := .obj [] V.members

/-- the object with the variable as its only member -/
def Vcap.environment (V : Vcap) : Value := .obj [] [(([], vcapServices, []), [], V.value, [])]

/-- the other lines of `cf env`; none of them opens the object -/
structure Output where
  before : List Chars
  after : List Chars
  once : opening ∉ before ++ after

/-- the printed object among the other lines -/
def Output.lines (o : Output) (V : Vcap) : List Chars :=
  o.before ++ (layout 0 V.environment).text.splitOn '\n' ++ o.after

/-- services.json is the object, whatever `echo` does -/
def Right (o : Output) (V : Vcap) : Prop :=
  ∀ treatment, ∃ text w, services treatment (o.lines V) = .written text ∧ parse text = some w ∧ Same V.value w

/-- no string or key is written with an escape that `echo` may expand -/
def Kept : Token → Prop
  | .short c => c = '"' ∨ c = '/'
  | _ => True

def Vcap.Clean (V : Vcap) : Prop := ∀ raw ∈ strings V.value, ∀ t ∈ tokens raw, Kept t

/-- a blank, a u or a hexadecimal digit, which need no escape -/
def Ordinary (u : UInt16) : Prop :=
  Char.ofNat u.toNat = ' ' ∨ Char.ofNat u.toNat = 'u' ∨ (hexValue (Char.ofNat u.toNat)).isSome

/-- no escape is used without need: neither `\/` nor `\u` for a blank, a u or a hexadecimal digit -/
def Needed : Token → Prop
  | .char _ => True
  | .short c => c ≠ '/'
  | .unicode a b c d => ¬ Ordinary (hexUnit a b c d)

def Vcap.Customary (V : Vcap) : Prop := ∀ raw ∈ strings V.value, ∀ t ∈ tokens raw, Needed t

/-! ## The filter -/

theorem awk_before {before : List Chars} (h : opening ∉ before) (rest : List Chars) :
    awk false (before ++ rest) = awk false rest := by
  induction before with
  | nil => rfl
  | cons l before ih =>
    have hl : l ≠ opening := fun he => h (he ▸ List.mem_cons_self)
    have hrest := ih fun hmem => h (List.mem_cons_of_mem l hmem)
    rw [List.cons_append, awk, if_neg hl, hrest]
    split_ifs <;> first | rfl | contradiction

theorem awk_inside {ls : List Chars} (h : ∀ l ∈ ls, l ≠ opening ∧ l ≠ closing) (rest : List Chars) :
    awk true (ls ++ closing :: rest) = ls ++ awk false rest := by
  induction ls with
  | nil =>
    have hne : closing ≠ opening := by decide
    rw [List.nil_append, awk, if_neg hne, if_pos rfl, List.nil_append]
  | cons l ls ih =>
    obtain ⟨h1, h2⟩ := h l List.mem_cons_self
    rw [List.cons_append, awk, if_neg h1, if_neg h2, if_pos rfl, ih fun l' hl' => h l' (List.mem_cons_of_mem l hl'),
      List.cons_append]

section
variable (V : Vcap)

theorem Vcap.legal_keys : ∀ m ∈ V.members, LegalStr m.1.2.1 := by
  cases V.valid with
  | obj _ _ hk _ _ _ => exact fun m hm => (hk m hm).2.1

theorem Vcap.valid_values : ∀ m ∈ V.members, Valid m.2.2.1 := by
  cases V.valid with
  | obj _ _ _ _ hv _ => exact hv

/-- the lines of the object -/
def Vcap.captured : Text := (body 1 V.members).tail

theorem Vcap.body_eq : body 1 V.members = '\n' :: V.captured := by
  obtain ⟨m, members, he⟩ := List.exists_cons_of_ne_nil V.nonempty
  have hhead : ∃ rest, body 1 V.members = '\n' :: rest := by
    rw [he]
    cases members with
    | nil => exact ⟨_, by simp [body, List.intercalate, memberLines, newline]; rfl⟩
    | cons n members =>
      rw [body, List.map_cons, List.map_cons, List.intercalate_cons_cons]
      exact ⟨_, by simp [memberLines, newline]; rfl⟩
  obtain ⟨rest, hrest⟩ := hhead
  rw [Vcap.captured, hrest, List.tail_cons]

theorem Vcap.captured_blanks : [' ', ' '] <+: V.captured :=
  body_indented V.legal_keys V.valid_values [] V.captured V.body_eq

theorem Vcap.captured_indented : Indented 2 V.captured := by
  intro a b he
  exact body_indented V.legal_keys V.valid_values ('\n' :: a) b (by rw [V.body_eq, he, List.cons_append])

/-- the lines of the object begin with two blanks -/
theorem Vcap.captured_lines : ∀ l ∈ V.captured.splitOn '\n', l ≠ opening ∧ l ≠ closing := by
  have hall : ∀ l ∈ V.captured.splitOn '\n', [' ', ' '] <+: l := by
    have hindented : Indented 2 (body 1 V.members) := body_indented V.legal_keys V.valid_values
    have hlines := indented_lines hindented
    rw [V.body_eq] at hlines
    have hsplit : ('\n' :: V.captured).splitOn '\n' = [] :: V.captured.splitOn '\n' :=
      List.splitOn_append_cons_self [] V.captured
    rwa [hsplit] at hlines
  intro l hl
  obtain ⟨rest, rfl⟩ := hall l hl
  have hsecond : ([' ', ' '] ++ rest)[1]? = some ' ' := rfl
  refine ⟨fun he => ?_, fun he => ?_⟩
  · rw [he] at hsecond
    cases hsecond
  · rw [he] at hsecond
    cases hsecond

/-- the last character of the object's lines is no line end -/
theorem Vcap.captured_end : V.captured.rdropWhile (fun c => decide (c = '\n')) = V.captured := by
  rw [List.rdropWhile_eq_self_iff]
  intro hne hlast
  have hsplit : V.captured = V.captured.dropLast ++ '\n' :: [] := by
    rw [← of_decide_eq_true hlast, List.dropLast_append_getLast]
  have hprefix := V.captured_indented _ _ hsplit
  exact absurd (List.prefix_nil.1 hprefix) (by decide)

theorem value_text : (layout 1 V.value).text = '\x7b' :: (body 1 V.members ++ newline 1 ++ ['\x7d']) := by
  rw [Vcap.value, layout, Value.text, membersText_layout 1 (newline 1) V.nonempty]
  rfl

/-- what is printed, line by line -/
theorem environment_text : (layout 0 V.environment).text =
    ['\x7b'] ++ '\n' :: (opening ++ '\n' :: (V.captured ++ '\n' :: (closing ++ '\n' :: ['\x7d']))) := by
  have hbody : body 0 [(([], vcapServices, []), [], V.value, [])] =
      '\n' :: ' ' :: '"' :: vcapServices ++ '"' :: ':' :: ' ' :: (layout 1 V.value).text := by
    simp [body, List.intercalate, memberLines, newline]
  rw [Vcap.environment, layout, Value.text, membersText_layout 0 (newline 0) (List.cons_ne_nil _ _), hbody, value_text,
    V.body_eq]
  simp [opening, closing, newline]

theorem lines_eq (o : Output) : o.lines V = (o.before ++ [['\x7b']]) ++
    (opening :: (V.captured.splitOn '\n' ++ closing :: (['\x7d'] :: o.after))) := by
  have hopen : '\n' ∉ ['\x7b'] := by decide
  have hclose : '\n' ∉ ['\x7d'] := by decide
  have hopening : '\n' ∉ opening := by decide
  have hclosing : '\n' ∉ closing := by decide
  rw [Output.lines, environment_text, List.splitOn_append_cons_self, List.splitOn_append_cons_self,
    List.splitOn_append_cons_self, List.splitOn_append_cons_self, List.splitOn_eq_singleton hopen,
    List.splitOn_eq_singleton hclose, List.splitOn_eq_singleton hopening, List.splitOn_eq_singleton hclosing]
  simp

/-- **What the filter leaves are the lines of the object.** -/
theorem captured_eq (o : Output) : vcapServicesOutput (o.lines V) = V.captured := by
  have hbefore : opening ∉ o.before ++ [['\x7b']] := by
    intro hmem
    rcases List.mem_append.1 hmem with hmem | hmem
    · exact o.once (List.mem_append_left _ hmem)
    · exact absurd hmem (by decide)
  have hafter : opening ∉ ['\x7d'] :: o.after := by
    intro hmem
    rcases List.mem_cons.1 hmem with he | hmem
    · exact absurd he (by decide)
    · exact o.once (List.mem_append_right _ hmem)
  have hquiet : awk false (['\x7d'] :: o.after) = [] := by
    have h := awk_before hafter []
    rwa [List.append_nil] at h
  calc vcapServicesOutput (o.lines V)
    _ = subst (awk false (opening :: (V.captured.splitOn '\n' ++ closing :: (['\x7d'] :: o.after)))) := by
      rw [vcapServicesOutput, lines_eq, awk_before hbefore]
    _ = subst (awk true (V.captured.splitOn '\n' ++ closing :: (['\x7d'] :: o.after))) := by rw [awk, if_pos rfl]
    _ = subst (V.captured.splitOn '\n') := by rw [awk_inside V.captured_lines, hquiet, List.append_nil]
    _ = V.captured := by rw [subst, List.intercalate_splitOn, V.captured_end]

theorem captured_ne (o : Output) : vcapServicesOutput (o.lines V) ≠ [] := by
  rw [captured_eq]
  obtain ⟨rest, hrest⟩ := V.captured_blanks
  rw [← hrest]
  exact List.cons_ne_nil _ _

/-! ## services.json -/

/-- what is written, as a value -/
def Vcap.file : Value := .obj [] (layoutMembers 1 ['\n'] V.members)

theorem Vcap.file_text : V.file.text = ['\x7b', '\n'] ++ (V.captured ++ ['\n', '\x7d']) := by
  rw [Vcap.file, Value.text, membersText_layout 1 ['\n'] V.nonempty, V.body_eq]
  simp

theorem Vcap.file_valid : Valid V.file :=
  valid_obj nil_blank (fun _ => rfl) (layoutMembers_good (fun _ hc => List.mem_singleton.1 hc ▸ rfl) V.legal_keys
    fun m hm => layout_valid (V.valid_values m hm) _)

theorem Vcap.file_same : Same V.value V.file :=
  members_same (layoutMembers_values 1 ['\n'] V.members) fun m hm => layout_same (V.valid_values m hm) _

theorem Vcap.file_strings : strings V.file = strings V.value :=
  members_strings (layoutMembers_values 1 ['\n'] V.members) fun m hm => layout_strings (V.valid_values m hm) _

/-- the lines of the object are expanded by themselves -/
theorem Vcap.captured_through : Through V.captured := by
  have hmember : ∀ line ∈ V.members.map (memberLines 1), Through line := by
    intro line hline
    obtain ⟨m, hm, rfl⟩ := List.mem_map.1 hline
    have hquote : Through ['"'] := (through_char (by decide)).1
    have hindent : Through (newline 2) := (through_plain (by decide)).1
    have hkey : Through ('"' :: m.1.2.1) :=
      through_additive.append (a := ['"']) hquote (through_string (V.legal_keys m hm)).1
    refine through_additive.append (through_additive.append hindent hkey) ?_
    exact through_additive.append (a := ['"', ':', ' ']) (through_plain (by decide)).1
      (becomes_text (layout_valid (V.valid_values m hm) 2)).1
  have hbody : Through (body 1 V.members) :=
    through_additive.intercalate (through_char (by decide)).1 hmember
  rw [V.body_eq] at hbody
  exact through_tail (by decide) hbody

theorem services_verbatim (o : Output) : services .verbatim (o.lines V) = .written (V.file.text ++ ['\n']) := by
  rw [services, if_pos (captured_ne V o), captured_eq, V.file_text]
  simp [echo]

theorem services_expanding (o : Output) :
    services .expanding (o.lines V) = .written ((mapStrings expanded V.file).text ++ ['\n']) := by
  have hopen : Through ['\x7b', '\n'] ∧ expanded ['\x7b', '\n'] = ['\x7b', '\n'] := through_plain (by decide)
  have hclose : Through ['\n', '\x7d'] ∧ expanded ['\n', '\x7d'] = ['\n', '\x7d'] := through_plain (by decide)
  have hfile : expanded V.file.text = ['\x7b', '\n'] ++ (expanded V.captured ++ ['\n', '\x7d']) := by
    rw [V.file_text, expanded_append hopen.1, expanded_append V.captured_through, hopen.2, hclose.2]
  have hechoOpen : echo .expanding ['\x7b'] = ['\x7b', '\n'] := rfl
  have hechoClose : echo .expanding ['\x7d'] = ['\x7d', '\n'] := rfl
  calc services .expanding (o.lines V)
    _ = .written (echo .expanding ['\x7b'] ++ echo .expanding V.captured ++ echo .expanding ['\x7d']) := by
      rw [services, if_pos (captured_ne V o), captured_eq]
    _ = .written (['\x7b', '\n'] ++ (expanded V.captured ++ ['\n']) ++ ['\x7d', '\n']) := by
      rw [hechoOpen, hechoClose, echo, through_end V.captured_through]
      rfl
    _ = .written (expanded V.file.text ++ ['\n']) := by
      rw [hfile]
      simp
    _ = .written ((mapStrings expanded V.file).text ++ ['\n']) := by rw [(becomes_text V.file_valid).2]

/-- a text between line ends is read -/
theorem parse_line {v : Value} (hv : Valid v) : parse (v.text ++ ['\n']) = some v := by
  refine parse_iff.2 ⟨hv, [], ['\n'], nil_blank, ?_, rfl⟩
  exact fun c hc => List.mem_singleton.1 hc ▸ rfl

/-- a string that is kept is printed as it stands -/
theorem expanded_kept {raw : Text} (h : LegalStr raw) (hkept : ∀ t ∈ tokens raw, Kept t) : expanded raw = raw := by
  have htoken : ∀ t ∈ tokens raw, tokenExpanded t = t.text := by
    intro t ht
    cases t with
    | short c =>
      rcases hkept _ ht with rfl | rfl <;> rfl
    | char c => rfl
    | unicode a b c d => rfl
  calc expanded raw
    _ = (tokens raw).flatMap tokenExpanded := (through_string h).2
    _ = (tokens raw).flatMap Token.text := by rw [List.flatMap_def, List.flatMap_def, List.map_congr_left htoken]
    _ = raw := tokens_text raw

/-- **Without escapes that `echo` may expand, services.json is VCAP_SERVICES.** -/
theorem clean_right {V : Vcap} (hclean : V.Clean) (o : Output) : Right o V := by
  intro treatment
  cases treatment with
  | verbatim => exact ⟨_, V.file, services_verbatim V o, parse_line V.file_valid, V.file_same⟩
  | expanding =>
    have hkept : mapStrings expanded V.file = V.file := by
      refine mapStrings_id V.file_valid fun raw hraw => ?_
      have hlegal := legal_of_strings V.file_valid raw hraw
      rw [V.file_strings] at hraw
      exact expanded_kept hlegal (hclean raw hraw)
    refine ⟨_, V.file, services_expanding V o, ?_, V.file_same⟩
    rw [hkept]
    exact parse_line V.file_valid

end

/-! ## Weights -/

/-- white space and control characters weigh nothing; quotes, backslashes and hexadecimal digits 1, a `u` as little as
makes an escape by digits weigh 2; all other characters 2 for each of their units -/
def charWeight (c : Char) : ℤ :=
  if isBlank c ∨ isControl c then 0
  else if c = '"' ∨ c = '\\' then 1
  else if c = 'u' then -3
  else if (hexValue c).isSome then 1
  else 2 * (unitsOf c).length

def unitWeight (u : UInt16) : ℤ :=
  let c := Char.ofNat u.toNat
  if c = ' ' then 0 else if c = 'u' then -3 else if (hexValue c).isSome then 1 else 2

def unitsWeight (s : Units) : ℤ := (s.map unitWeight).sum

theorem charWeight_blank (c : Char) (h : isBlank c = true) : charWeight c = 0 := if_pos (Or.inl h)

theorem hexValue_bounds {c : Char} (h : (hexValue c).isSome) : 48 ≤ c.toNat ∧ c.toNat ≤ 102 := by
  have hle : ∀ {d e : Char}, d ≤ c ∧ c ≤ e → 48 ≤ d.toNat → e.toNat ≤ 102 → 48 ≤ c.toNat ∧ c.toNat ≤ 102 := by
    intro d e hc hd he
    have hlower : d.toNat ≤ c.toNat := hc.1
    have hupper : c.toNat ≤ e.toNat := hc.2
    omega
  unfold hexValue at h
  split_ifs at h with h1 h2 h3
  · exact hle h1 (by decide) (by decide)
  · exact hle h2 (by decide) (by decide)
  · exact hle h3 (by decide) (by decide)
  · cases h

theorem charWeight_hex {c : Char} (h : (hexValue c).isSome) : charWeight c = 1 := by
  have hne : ∀ d, (hexValue d).isSome = false → c ≠ d := by
    rintro d hd rfl
    rw [hd] at h
    cases h
  have hcontrol : isControl c = false := by
    have hbounds := hexValue_bounds h
    simp only [isControl, decide_eq_false_iff_not]
    omega
  have hblank : isBlank c = false := by
    simp [isBlank, hne ' ' rfl, hne '\t' rfl, hne '\n' rfl, hne '\r' rfl]
  have hspecial : ¬ (c = '"' ∨ c = '\\') := not_or.2 ⟨hne '"' rfl, hne '\\' rfl⟩
  rw [charWeight, hblank, hcontrol, if_neg (by simp), if_neg hspecial, if_neg (hne 'u' rfl), if_pos h]

/-- half of a pair weighs 2 -/
theorem weight_half {n : ℕ} (h : 0xD800 ≤ n ∧ n < 0xE000) : unitWeight (UInt16.ofNat n) = 2 := by
  have hn : (UInt16.ofNat n).toNat = n := UInt16.toNat_ofNat_of_lt' (by simp only [UInt16.size]; omega)
  have hinvalid : ¬ n.isValidChar := by
    unfold Nat.isValidChar
    omega
  have hchar : Char.ofNat n = '\x00' := dif_neg hinvalid
  rw [unitWeight, hn, hchar]
  rfl

/-- a character outside the basic plane weighs what its two units weigh -/
theorem weight_pair {c : Char} (hn : ¬ c.toNat < 0x10000) : unitsWeight (unitsOf c) = 4 := by
  have hvalid : c.toNat < 0x110000 := by
    have hc := c.valid
    unfold UInt32.isValidChar Nat.isValidChar at hc
    change c.toNat < 0xD800 ∨ 0xDFFF < c.toNat ∧ c.toNat < 0x110000 at hc
    omega
  rw [unitsOf, if_neg hn, unitsWeight, List.map_cons, List.map_cons, List.map_nil, List.sum_cons, List.sum_cons,
    List.sum_nil, weight_half (by omega), weight_half (by omega)]
  rfl

theorem weight_single {c : Char} (hn : c.toNat < 0x10000) :
    unitsWeight (unitsOf c) = if c = ' ' then 0 else if c = 'u' then -3 else if (hexValue c).isSome then 1 else 2 := by
  have hunit : (UInt16.ofNat c.toNat).toNat = c.toNat := UInt16.toNat_ofNat_of_lt' hn
  rw [unitsOf, if_pos hn, unitsWeight, List.map_singleton, List.sum_singleton, unitWeight, hunit, Char.ofNat_toNat]

/-- a character that stands for itself weighs what its units weigh -/
theorem weight_char {c : Char} (h : (Token.char c).Legal) : charWeight c = unitsWeight (unitsOf c) := by
  obtain ⟨hquote, hback, hcontrol⟩ := h
  have hspecial : ¬ (c = '"' ∨ c = '\\') := not_or.2 ⟨hquote, hback⟩
  have hblank : isBlank c = true ∨ isControl c = true ↔ c = ' ' := by
    rw [or_iff_left (Bool.eq_false_iff.1 hcontrol)]
    refine ⟨fun hc => ?_, fun hc => hc ▸ rfl⟩
    simp only [isBlank, Bool.or_eq_true, decide_eq_true_eq] at hc
    rcases hc with ((rfl | rfl) | rfl) | rfl
    · rfl
    · cases hcontrol
    · cases hcontrol
    · cases hcontrol
  rw [charWeight, if_congr hblank rfl rfl, if_neg hspecial]
  by_cases hn : c.toNat < 0x10000
  · have hlength : (unitsOf c).length = 1 := by rw [unitsOf, if_pos hn]; rfl
    rw [weight_single hn, hlength, Nat.cast_one, mul_one]
  · have hne : ∀ d : Char, d.toNat < 0x10000 → c ≠ d := by
      rintro d hd rfl
      exact hn hd
    have hhex : ¬ (hexValue c).isSome := fun hhex => hn ((hexValue_bounds hhex).2.trans_lt (by decide))
    have hlength : (unitsOf c).length = 2 := by rw [unitsOf, if_neg hn]; rfl
    rw [weight_pair hn, if_neg (hne ' ' (by decide)), if_neg (hne 'u' (by decide)), if_neg hhex, hlength]
    rfl

/-- a unit weighs 2 at the most -/
theorem unitWeight_le (u : UInt16) : unitWeight u ≤ 2 := by
  unfold unitWeight
  simp only
  split_ifs <;> decide

/-- and just that where it needs its escape -/
theorem unitWeight_needed {u : UInt16} (h : ¬ Ordinary u) : unitWeight u = 2 := by
  obtain ⟨hblank, h⟩ := not_or.1 h
  obtain ⟨hletter, hhex⟩ := not_or.1 h
  rw [unitWeight, if_neg hblank, if_neg hletter, if_neg hhex]

section
variable {t : Token}

/-- an escape of two characters -/
theorem short_cases {c : Char} (h : (simpleEscape c).isSome) :
    c = '"' ∨ c = '\\' ∨ c = '/' ∨ c = 'b' ∨ c = 'f' ∨ c = 'n' ∨ c = 'r' ∨ c = 't' := by
  unfold simpleEscape at h
  split_ifs at h with hsame
  · tauto
  · tauto
  · tauto
  · tauto
  · tauto
  · tauto
  · cases h

theorem weight_unicode {a b c d : Char} (h : (Token.unicode a b c d).Legal) :
    weigh charWeight (Token.unicode a b c d).text = 2 := by
  have hdigit : ∀ x ∈ [a, b, c, d], charWeight x = 1 := fun x hx => charWeight_hex (h x hx)
  simp only [Token.text, weigh_cons, weigh_nil, hdigit a (by simp), hdigit b (by simp), hdigit c (by simp),
    hdigit d (by simp)]
  rfl

/-- what a token stands for weighs no more than the token -/
theorem weight_units (h : t.Legal) : unitsWeight t.units ≤ weigh charWeight t.text := by
  cases t with
  | char c =>
    rw [Token.units, Token.text, weigh_cons, weigh_nil, add_zero, weight_char h]
  | short c =>
    rcases short_cases h with rfl | rfl | rfl | rfl | rfl | rfl | rfl | rfl <;> decide
  | unicode a b c d =>
    rw [weight_unicode h, Token.units, unitsWeight, List.map_singleton, List.sum_singleton]
    exact unitWeight_le _

/-- what it is expanded to weighs no more than what it stands for, and less if an escape is lost -/
theorem weight_expanded (h : t.Legal) (hneeded : Needed t) :
    weigh charWeight (tokenExpanded t) ≤ unitsWeight t.units ∧
      (¬ Kept t → weigh charWeight (tokenExpanded t) < unitsWeight t.units) := by
  cases t with
  | char c =>
    rw [Token.units, tokenExpanded, weigh_cons, weigh_nil, add_zero, weight_char h]
    exact ⟨le_refl _, fun hlost => absurd trivial hlost⟩
  | short c =>
    rcases short_cases h with rfl | rfl | rfl | rfl | rfl | rfl | rfl | rfl
    · exact ⟨by decide, fun hlost => absurd (Or.inl rfl) hlost⟩
    · exact ⟨by decide, fun _ => by decide⟩
    · exact absurd rfl hneeded
    · exact ⟨by decide, fun _ => by decide⟩
    · exact ⟨by decide, fun _ => by decide⟩
    · exact ⟨by decide, fun _ => by decide⟩
    · exact ⟨by decide, fun _ => by decide⟩
    · exact ⟨by decide, fun _ => by decide⟩
  | unicode a b c d =>
    have hexpanded : tokenExpanded (.unicode a b c d) = Token.text (.unicode a b c d) := rfl
    rw [hexpanded, weight_unicode h, Token.units, unitsWeight, List.map_singleton, List.sum_singleton,
      unitWeight_needed hneeded]
    exact ⟨le_refl _, fun hlost => absurd trivial hlost⟩

end

section
variable {raw : Text}

theorem weight_tokens (raw : Text) :
    unitsWeight (decode raw) = ((tokens raw).map fun t => unitsWeight t.units).sum := by
  rw [decode_eq]
  exact sum_flatMap Token.units unitWeight (tokens raw)

/-- what a string stands for weighs no more than the string -/
theorem weight_decode (h : LegalStr raw) : unitsWeight (decode raw) ≤ weigh charWeight raw := by
  have hlegal := tokens_legal h
  calc unitsWeight (decode raw)
    _ = ((tokens raw).map fun t => unitsWeight t.units).sum := weight_tokens raw
    _ ≤ ((tokens raw).map fun t => weigh charWeight t.text).sum :=
      List.sum_le_sum fun t ht => weight_units (hlegal t ht)
    _ = weigh charWeight raw := by rw [← weigh_flatMap, tokens_text]

/-- what it is expanded to weighs no more than what it stands for, and less if an escape is lost -/
theorem weight_string (h : LegalStr raw) (hneeded : ∀ t ∈ tokens raw, Needed t) :
    weigh charWeight (expanded raw) ≤ unitsWeight (decode raw) ∧
      ((∃ t ∈ tokens raw, ¬ Kept t) → weigh charWeight (expanded raw) < unitsWeight (decode raw)) := by
  have hlegal := tokens_legal h
  have hexpanded : weigh charWeight (expanded raw) =
      ((tokens raw).map fun t => weigh charWeight (tokenExpanded t)).sum := by
    rw [(through_string h).2, weigh_flatMap]
  have hle : ∀ t ∈ tokens raw, weigh charWeight (tokenExpanded t) ≤ unitsWeight t.units :=
    fun t ht => (weight_expanded (hlegal t ht) (hneeded t ht)).1
  rw [hexpanded, weight_tokens]
  refine ⟨List.sum_le_sum hle, ?_⟩
  rintro ⟨t, ht, hlost⟩
  exact List.sum_lt_sum _ _ hle ⟨t, ht, (weight_expanded (hlegal t ht) (hneeded t ht)).2 hlost⟩

end

/-- all the strings of a value weigh at least what they stand for -/
theorem weight_strings {v : Value} (hv : Valid v) :
    ((strings v).map fun raw => unitsWeight (decode raw)).sum ≤ ((strings v).map (weigh charWeight)).sum :=
  List.sum_le_sum fun raw hraw => weight_decode (legal_of_strings hv raw hraw)

/-- a text that is read weighs what its value without strings and the strings weigh -/
theorem weight_read {before after : Text} {w : Value} (hbefore : Blank before) (hafter : Blank after) (hw : Valid w) :
    weigh charWeight (before ++ w.text ++ after) =
      weigh charWeight (outside w).text + ((strings w).map (weigh charWeight)).sum := by
  have hid := weigh_text charWeight (fun raw => raw) hw
  rw [mapStrings_id hw fun _ _ => rfl] at hid
  rw [weigh_append, weigh_append, weigh_blank charWeight_blank hbefore, weigh_blank charWeight_blank hafter, zero_add,
    add_zero]
  exact hid

/-- so does services.json -/
theorem weight_file (V : Vcap) : weigh charWeight ((mapStrings expanded V.file).text ++ ['\n']) =
    weigh charWeight (outside V.value).text +
      ((strings V.value).map fun raw => weigh charWeight (expanded raw)).sum := by
  have hblank : Blank ['\n'] := fun c hc => List.mem_singleton.1 hc ▸ rfl
  rw [weigh_append, weigh_text charWeight expanded V.file_valid, V.file_strings, weigh_blank charWeight_blank hblank,
    add_zero, same_outside charWeight_blank V.file_same V.valid V.file_valid]

/-- where an escape is lost, the strings of services.json weigh less than what those of the object stand for -/
theorem weight_lost {V : Vcap} (hcustomary : V.Customary) (hlost : ¬ V.Clean) :
    ((strings V.value).map fun raw => weigh charWeight (expanded raw)).sum <
      ((strings V.value).map fun raw => unitsWeight (decode raw)).sum := by
  have hlegal := legal_of_strings V.valid
  unfold Vcap.Clean at hlost
  push Not at hlost
  obtain ⟨raw, hraw, t, ht, hlost⟩ := hlost
  apply List.sum_lt_sum
  · exact fun s hs => (weight_string (hlegal s hs) (hcustomary s hs)).1
  · exact ⟨raw, hraw, (weight_string (hlegal raw hraw) (hcustomary raw hraw)).2 ⟨t, ht, hlost⟩⟩

/-- **With an escape that `echo` expands, services.json is not the object.** Read as an equal value, the text would weigh
what the strings of the object stand for at least. -/
theorem right_clean {V : Vcap} {o : Output} (hcustomary : V.Customary) (h : Right o V) : V.Clean := by
  by_contra hlost
  obtain ⟨text, w, hwritten, hparse, hsame⟩ := h .expanding
  rw [services_expanding] at hwritten
  cases hwritten
  obtain ⟨hw, before, after, hbefore, hafter, htext⟩ := parse_iff.1 hparse
  have hfile := weight_file V
  rw [htext, weight_read hbefore hafter hw, same_outside charWeight_blank hsame V.valid hw] at hfile
  have hequal := same_units unitsWeight hsame
  have hread := weight_strings hw
  have hless := weight_lost hcustomary hlost
  omega

/-- **services.json is the object as long as no string is printed with an escape that `echo` may expand.** Where no
escape is used without need, it is the object just then. -/
theorem services_right_iff (o : Output) (V : Vcap) :
    (V.Clean → Right o V) ∧ (V.Customary → (Right o V ↔ V.Clean)) :=
  ⟨fun hclean => clean_right hclean o, fun hcustomary => ⟨right_clean hcustomary, fun hclean => clean_right hclean o⟩⟩

/-- `{"a": "raw"}` -/
def oneString (raw : Text) (h : LegalStr raw) : Vcap where
  members := [(([], ['a'], []), [' '], .str raw, [])]
  valid := by
    refine valid_obj nil_blank (fun _ => rfl) fun m hm => ?_
    obtain rfl := List.mem_singleton.1 hm
    have hblank : Blank [' '] := fun c hc => List.mem_singleton.1 hc ▸ rfl
    exact ⟨⟨nil_blank, rfl, nil_blank⟩, hblank, .str h, nil_blank⟩
  nonempty := List.cons_ne_nil _ _

theorem oneString_strings (raw : Text) (h : LegalStr raw) : strings (oneString raw h).value = [['a'], raw] := by
  simp [Vcap.value, oneString, strings, stringsMembers]

def nothingElse : Output := ⟨[], [], List.not_mem_nil⟩

/-- the letter n and a quotation mark, of which the latter needs its escape -/
theorem quote_right : Right nothingElse (oneString ['n', '\\', '"'] rfl) := by
  refine (services_right_iff _ _).1 fun raw hraw t ht => ?_
  have hstrings := oneString_strings ['n', '\\', '"'] rfl
  rw [hstrings] at hraw
  rcases List.mem_cons.1 hraw with rfl | hraw
  · obtain rfl := List.mem_singleton.1 ht
    exact trivial
  · obtain rfl := List.mem_singleton.1 hraw
    rcases List.mem_cons.1 ht with rfl | ht
    · exact trivial
    · obtain rfl := List.mem_singleton.1 ht
      exact Or.inl rfl

/-- `\n` becomes a line end in the middle of the string -/
theorem line_end_wrong : ¬ Right nothingElse (oneString ['\\', 'n'] rfl) := by
  intro hright
  have hstrings := oneString_strings ['\\', 'n'] rfl
  have hcustomary : (oneString ['\\', 'n'] rfl).Customary := by
    intro raw hraw t ht
    rw [hstrings] at hraw
    rcases List.mem_cons.1 hraw with rfl | hraw
    · obtain rfl := List.mem_singleton.1 ht
      exact trivial
    · obtain rfl := List.mem_singleton.1 hraw
      obtain rfl := List.mem_singleton.1 ht
      intro he
      cases he
  have hclean := right_clean hcustomary hright
  have hkept : Kept (.short 'n') := by
    apply hclean ['\\', 'n']
    · rw [hstrings]
      exact List.mem_cons_of_mem _ List.mem_cons_self
    · exact List.mem_singleton.2 rfl
  rcases hkept with he | he
  · cases he
  · cases he

end IconSetup.Services
