/-
scripts/create_user_provided_service.sh, the file it writes: creds.json, one `echo` a line, with the value of each
variable between quotes as it is. Nothing is escaped. What is in the file is a function of the environment.

The file is what it should be iff no value contains a quote, a backslash or a control character. Without one, every line
is a member of an object. With one, the file can still be JSON (a backslash followed by a letter is an escape, and a
value may close its own string), but some variable comes back with another value: to be read as it was, a value with
such a character needs a longer string in the file, which can only be in the value of another such variable.

- `parse_creds`: without such characters, the file as an object.
- `strings_creds`: every string that a reader finds in the file is a name, or stands within one value.
- `creds_faithful_iff`: the file gives every variable its value iff there are no such characters.
-/
import Mathlib.Tactic
import IconSetup.Core.JsonLex
import IconSetup.Core.JsonText
import IconSetup.Core.JsonStrings

namespace IconSetup.CredsJson

open IconSetup.JsonLex IconSetup.JsonText IconSetup.JsonStrings

/-! ## The file -/

/-- the values of the environment variables, empty where one is not set -/
abbrev Env := String → Text

/-- what `echo s` writes -/
def echo (s : Text) : Text := s ++ ['\n']

/-- `"\"name\":\"$name\""` -/
def quoted (env : Env) (name : String) : Text := '"' :: name.toList ++ '"' :: ':' :: '"' :: env name ++ ['"']

/-- `echo` with a comma at the end -/
def member (env : Env) (name : String) : Text := echo (quoted env name ++ [','])

/-- the lines of creds.json, in the order they are written -/
def lines (env : Env) : List Text := [
  echo ['\x7b'],
  member env "PHIX_ENDPOINT_SUBMISSION",
  member env "CLAMAV_ENDPOINT",
  member env "CRYPTO_PASSWORD",
  member env "JWT_TOKEN_SECRET_KEY",
  member env "PHIX_ENDPOINT_DICTIONARY",
  member env "PHIX_ENDPOINT_RETRIEVAL",
  member env "PHIX_ENDPOINT_RETRIEVAL_TOKEN",
  member env "PHIX_ENDPOINT_SUBMISSION_TOKEN",
  member env "PHIX_ENDPOINT_SUBMISSION",
  member env "POSTGRES_READONLY_ROLE",
  echo (quoted env "TZ"),
  echo ['\x7d']]

def credsJson (env : Env) : Text := (lines env).flatten

/-- the variables before the last -/
def commaNames : List String := ["PHIX_ENDPOINT_SUBMISSION", "CLAMAV_ENDPOINT", "CRYPTO_PASSWORD",
  "JWT_TOKEN_SECRET_KEY", "PHIX_ENDPOINT_DICTIONARY", "PHIX_ENDPOINT_RETRIEVAL", "PHIX_ENDPOINT_RETRIEVAL_TOKEN",
  "PHIX_ENDPOINT_SUBMISSION_TOKEN", "PHIX_ENDPOINT_SUBMISSION", "POSTGRES_READONLY_ROLE"]

/-- the variables that are written -/
def names : List String := commaNames ++ ["TZ"]

theorem credsJson_eq (env : Env) : credsJson env =
    echo ['\x7b'] ++ commaNames.flatMap (member env) ++ (echo (quoted env "TZ") ++ echo ['\x7d']) := by
  simp [credsJson, lines, commaNames]

/-- the file is a JSON object, and its value for every variable is the one in the environment -/
def Faithful (env : Env) : Prop :=
  ∃ ws members, parse (credsJson env) = some (.obj ws members) ∧
    ∀ name ∈ names, ∃ raw, memberValue name.toList (.obj ws members) = some (.str raw) ∧ unescape raw = some (env name)

/-- no quote, no backslash, no control character -/
def Plain (v : Text) : Prop := ∀ c ∈ v, c ≠ '"' ∧ c ≠ '\\' ∧ isControl c = false

instance (v : Text) : Decidable (Plain v) :=
  List.decidableBAll (fun c => c ≠ '"' ∧ c ≠ '\\' ∧ isControl c = false) v

theorem names_plain : ∀ name ∈ names, Plain name.toList := by decide

theorem plain_backslash {v : Text} (h : Plain v) : '\\' ∉ v := fun hc => (h _ hc).2.1 rfl

/-! ## Plain values -/

/-- the line of a variable as a member, behind the newline of the line before it -/
def cstMember (env : Env) (after : Text) (name : String) : Member :=
  ((['\n'], name.toList, []), [], .str (env name), after)

/-- the file as an object -/
def cst (env : Env) : Value := .obj [] (commaNames.map (cstMember env []) ++ [cstMember env ['\n'] "TZ"])

theorem entriesText_cst (env : Env) (ns : List String) :
    entriesText memberText '\x7d' (ns.map (cstMember env []) ++ [cstMember env ['\n'] "TZ"]) =
      '\n' :: ns.flatMap (member env) ++ (echo (quoted env "TZ") ++ ['\x7d']) := by
  induction ns with
  | nil => simp [entriesText, moreText, memberText, keyText, itemText, cstMember, quoted, echo, Value.text]
  | cons name ns ih =>
    have hne : ns.map (cstMember env []) ++ [cstMember env ['\n'] "TZ"] ≠ [] := by simp
    rw [List.map_cons, List.cons_append, entriesText_cons hne, ih]
    simp [memberText, keyText, itemText, cstMember, member, quoted, echo, Value.text]

theorem credsJson_cst (env : Env) : credsJson env = (cst env).text ++ ['\n'] := by
  rw [credsJson_eq, cst, Value.text, membersText_eq, entriesText_cst]
  simp [echo]

theorem blank_newline : Blank ['\n'] := by decide

theorem mem_cst {env : Env} {m : Member} (hm : m ∈ commaNames.map (cstMember env []) ++ [cstMember env ['\n'] "TZ"]) :
    ∃ name ∈ names, ∃ after, (after = [] ∨ after = ['\n']) ∧ m = cstMember env after name := by
  rcases List.mem_append.1 hm with h | h
  · obtain ⟨name, hname, rfl⟩ := List.mem_map.1 h
    exact ⟨name, List.mem_append_left _ hname, [], Or.inl rfl, rfl⟩
  · rw [List.mem_singleton.1 h]
    exact ⟨"TZ", List.mem_append_right _ (List.mem_singleton_self _), ['\n'], Or.inr rfl, rfl⟩

theorem cst_has (env : Env) {name : String} (hname : name ∈ names) :
    ∃ after, cstMember env after name ∈ commaNames.map (cstMember env []) ++ [cstMember env ['\n'] "TZ"] := by
  rcases List.mem_append.1 hname with h | h
  · exact ⟨[], List.mem_append_left _ (List.mem_map_of_mem h)⟩
  · rw [List.mem_singleton.1 h]
    exact ⟨['\n'], List.mem_append_right _ (List.mem_singleton_self _)⟩

theorem cst_valid {env : Env} (h : ∀ name ∈ names, Plain (env name)) : Valid (cst env) := by
  have hgood : ∀ m ∈ commaNames.map (cstMember env []) ++ [cstMember env ['\n'] "TZ"], GoodMember m := by
    intro m hm
    obtain ⟨name, hname, after, hafter, rfl⟩ := mem_cst hm
    have hblank : Blank after := by
      rcases hafter with rfl | rfl
      · exact nil_blank
      · exact blank_newline
    exact ⟨⟨blank_newline, legalStr_plain (names_plain name hname), nil_blank⟩, nil_blank,
      .str (legalStr_plain (h name hname)), hblank⟩
  exact valid_obj nil_blank (fun _ => rfl) hgood

/-- **Without quotes, backslashes and control characters, the file is an object.** -/
theorem parse_creds {env : Env} (h : ∀ name ∈ names, Plain (env name)) : parse (credsJson env) = some (cst env) := by
  refine parse_iff.2 ⟨cst_valid h, [], ['\n'], nil_blank, blank_newline, ?_⟩
  rw [credsJson_cst, List.nil_append]

/-- every member with the key of a variable has its value -/
theorem memberValue_cst {env : Env} {name : String} (hname : name ∈ names) :
    memberValue name.toList (cst env) = some (.str (env name)) := by
  have hkey : ∀ n ∈ names, unescape n.toList = some n.toList := fun n hn =>
    unescape_plain (plain_backslash (names_plain n hn))
  obtain ⟨after, hmem⟩ := cst_has env hname
  have hfound : ((commaNames.map (cstMember env []) ++ [cstMember env ['\n'] "TZ"]).reverse.find? fun m =>
      decide (unescape m.1.2.1 = some name.toList)).isSome := by
    rw [List.find?_isSome]
    exact ⟨_, List.mem_reverse.2 hmem, decide_eq_true (hkey name hname)⟩
  obtain ⟨m, hm⟩ := Option.isSome_iff_exists.1 hfound
  obtain ⟨name', hname', after', -, rfl⟩ := mem_cst (List.mem_reverse.1 (List.mem_of_find?_eq_some hm))
  have hsame : name' = name := by
    have hfind := List.find?_some hm
    have hlist := (hkey name' hname').symm.trans (of_decide_eq_true hfind)
    exact String.toList_inj.1 (Option.some.inj hlist)
  rw [cst, memberValue, hm, hsame]
  rfl

theorem plain_faithful {env : Env} (h : ∀ name ∈ names, Plain (env name)) : Faithful env := by
  refine ⟨_, _, parse_creds h, ?_⟩
  intro name hname
  exact ⟨env name, memberValue_cst hname, unescape_plain (plain_backslash (h name hname))⟩

/-! ## The strings of the file -/

/-- the strings of the line of a variable: its name, and what stands in the value -/
theorem strings_line {env : Env} {name : String} (hname : name ∈ names) {tail : Text} (htail : '"' ∉ tail)
    {found : List Text} (h : scan (quoted env name ++ tail) = some found) :
    ∀ raw ∈ found, raw = name.toList ∨ raw <:+: env name := by
  have hline : quoted env name ++ tail =
      '"' :: name.toList ++ '"' :: (':' :: '"' :: (env name ++ '"' :: tail)) := by simp [quoted]
  rw [hline, scan_string (legalStr_plain (names_plain name hname))] at h
  obtain ⟨xs, hxs, rfl⟩ := Option.map_eq_some_iff.1 h
  have hvalue : scanFrom (some (.plain, [])) (env name ++ '"' :: tail) = some xs := hxs
  intro raw hraw
  rcases List.mem_cons.1 hraw with rfl | hraw
  · exact Or.inl rfl
  · exact Or.inr (scanFrom_within rfl hvalue htail raw hraw)

theorem scan_echo (a b : Text) : scan (echo a ++ b) = (scan a).bind fun xs => (scan b).map (xs ++ ·) := by
  rw [echo, List.append_assoc, List.singleton_append, scan_newline]

/-- the strings of lines of variables, and of what follows them -/
theorem strings_members {env : Env} {ns : List String} (hns : ∀ name ∈ ns, name ∈ names) {rest : Text}
    {found : List Text} (h : scan (ns.flatMap (member env) ++ rest) = some found) :
    ∃ before after, found = before ++ after ∧ scan rest = some after ∧
      ∀ raw ∈ before, ∃ name ∈ names, raw = name.toList ∨ raw <:+: env name := by
  induction ns generalizing found with
  | nil => exact ⟨[], found, rfl, h, fun raw hraw => absurd hraw List.not_mem_nil⟩
  | cons name ns ih =>
    rw [List.flatMap_cons, List.append_assoc, member, scan_echo] at h
    obtain ⟨xs, hxs, h⟩ := Option.bind_eq_some_iff.1 h
    obtain ⟨ys, hys, rfl⟩ := Option.map_eq_some_iff.1 h
    have hname := hns name List.mem_cons_self
    obtain ⟨before, after, rfl, hafter, hbefore⟩ := ih (fun n hn => hns n (List.mem_cons_of_mem name hn)) hys
    refine ⟨xs ++ before, after, (List.append_assoc xs before after).symm, hafter, ?_⟩
    intro raw hraw
    rcases List.mem_append.1 hraw with hraw | hraw
    · exact ⟨name, hname, strings_line hname (by decide) hxs raw hraw⟩
    · exact hbefore raw hraw

/-- **Every string that is found in the file is a name, or stands within one value.** -/
theorem strings_creds {env : Env} {found : List Text} (h : scan (credsJson env) = some found) :
    ∀ raw ∈ found, ∃ name ∈ names, raw = name.toList ∨ raw <:+: env name := by
  have hopen : '"' ∉ echo ['\x7b'] := by decide
  rw [credsJson_eq, List.append_assoc, scan_skip hopen] at h
  obtain ⟨before, after, rfl, hafter, hbefore⟩ := strings_members (fun name => List.mem_append_left _) h
  have htz : "TZ" ∈ names := List.mem_append_right _ (List.mem_singleton_self _)
  rw [scan_echo] at hafter
  obtain ⟨xs, hxs, hafter⟩ := Option.bind_eq_some_iff.1 hafter
  have hclose : scan (echo ['\x7d']) = some [] := by decide
  rw [hclose, Option.map_some, List.append_nil, Option.some.injEq] at hafter
  subst hafter
  intro raw hraw
  rcases List.mem_append.1 hraw with hraw | hraw
  · exact hbefore raw hraw
  · rw [← List.append_nil (quoted env "TZ")] at hxs
    exact ⟨"TZ", htz, strings_line htz List.not_mem_nil hxs raw hraw⟩

/-! ## Other values -/

/-- a value that is not plain is read from a longer string, which stands within another such value -/
theorem unplain_longer {env : Env} (h : Faithful env) {name : String} (hname : name ∈ names)
    (hplain : ¬ Plain (env name)) :
    ∃ name' ∈ names, ¬ Plain (env name') ∧ (env name).length < (env name').length := by
  obtain ⟨ws, members, hparse, hvalues⟩ := h
  obtain ⟨raw, hraw, hun⟩ := hvalues name hname
  have hmem := memberValue_mem hraw
  have hlegal : LegalStr raw := legal_of_strings (parse_iff.1 hparse).1 raw hmem
  have hslash : '\\' ∈ raw := by
    by_contra hb
    have hsame : env name = raw := Option.some.inj (hun.symm.trans (unescape_plain hb))
    exact hplain (hsame ▸ plain_of_legalStr hlegal hb)
  obtain ⟨name', hname', hin⟩ := strings_creds (scan_parsed hparse) raw hmem
  refine ⟨name', hname', ?_⟩
  rcases hin with rfl | hin
  · exact absurd hslash (plain_backslash (names_plain name' hname'))
  · exact ⟨fun hp => plain_backslash hp (hin.subset hslash), (unescape_length hun hslash).trans_le hin.length_le⟩

/-- **The file gives every variable its value iff no value has a quote, a backslash or a control character.** -/
theorem creds_faithful_iff (env : Env) : Faithful env ↔ ∀ name ∈ names, Plain (env name) := by
  refine ⟨fun h => ?_, plain_faithful⟩
  by_contra hnot
  push Not at hnot
  obtain ⟨name, hname, hplain⟩ := hnot
  -- among the values that are not plain, one is the longest
  have hmem : name ∈ names.toFinset.filter fun n => ¬ Plain (env n) :=
    Finset.mem_filter.2 ⟨List.mem_toFinset.2 hname, hplain⟩
  obtain ⟨longest, hlongest, hmax⟩ := Finset.exists_max_image _ (fun n => (env n).length) ⟨name, hmem⟩
  obtain ⟨hin, hbad⟩ := Finset.mem_filter.1 hlongest
  obtain ⟨name', hname', hbad', hlonger⟩ := unplain_longer h (List.mem_toFinset.1 hin) hbad
  have hle := hmax name' (Finset.mem_filter.2 ⟨List.mem_toFinset.2 hname', hbad'⟩)
  omega

/-- a password with a quote -/
def quoteEnv : Env := fun name => if name = "CRYPTO_PASSWORD" then ['a', '"', 'b'] else ['x']

theorem quote_in_password : ¬ Faithful quoteEnv := by
  intro h
  obtain ⟨ws, members, hparse, -⟩ := h
  have hnone : parse (credsJson quoteEnv) = none := by decide +kernel
  rw [hnone] at hparse
  cases hparse

end IconSetup.CredsJson
