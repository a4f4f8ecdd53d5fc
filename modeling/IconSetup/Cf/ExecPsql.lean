/-
scripts/exec_psql.sh: the connection URI that `cf service-key` prints, cut into its parts, and the calls of psql.

The parts are fields of the line, counted from its start, between the colons, slashes and at signs. Nothing is decoded,
and $URL and the parts are expanded without quotes, so that a star in them is a wildcard. The database name ends at a
colon and loses its commas.

A `Uri` holds the parts as psql should get them and as they are written. `Clean` says of the written parts: no percent
escape and no star in any of the three, no colon in the password and the database name, no comma in the database name,
and the user and the database name are not empty. Where no other line contains `uri":`, the calls are right in every
directory iff the parts are clean.

- `parse_user` to `parse_dbname`: what the script takes for the parts.
- `clean_calls`: clean parts come back as they were.
- `calls_clean`: where all calls are right in every directory, the parts are clean.
- `psql_called_iff`: both.
-/
import Mathlib.Tactic
import IconSetup.Core.Shell
import IconSetup.Core.PercentEncoding

namespace IconSetup.ExecPsql

open IconSetup.Shell
open IconSetup.PercentEncoding (Encodes)

/-! ## The script -/

/-- a call of psql: PGPASSWORD and the arguments -/
structure Call where
  password : Chars
  args : List Chars
deriving DecidableEq, Repr

@[ext] structure Vars where
  user : Chars
  password : Chars
  host : Chars
  port : Chars
  dbname : Chars
deriving DecidableEq, Repr

/-- USER to DBNAME, from what `echo $URL` prints -/
def parseUrl (url : List Chars) : Vars where
  user := subst (cut '/' 3 (cut ':' 3 url))
  password := subst (cut '@' 1 (cut ':' 4 url))
  host := subst (cut '@' 2 (cut ':' 4 url))
  port := subst (cut '/' 1 (cut ':' 5 url))
  dbname := subst (tr ['"', ','] (cut '/' 2 (cut ':' 5 url)))

def psqlArgs (user dbname port host file : List Chars) : List Chars :=
  ["-U".toList] ++ user ++ ["-d".toList] ++ dbname ++ ["-p".toList] ++ port ++ ["-h".toList] ++ host ++
    ["--no-password".toList, "-f".toList] ++ file

def runPSQL (loc : ShellLocale) (fs : Files) (v : Vars) (file : Chars) : Call where
  password := v.password
  args := psqlArgs (expand loc fs v.user) (expand loc fs v.dbname) (expand loc fs v.port) (expand loc fs v.host)
    (expand loc fs file)

/-- the scripts that are run before 4_Geocode_Data.sql.zip is unzipped -/
def filesBefore : List Chars :=
  ["Drop_DB.sql".toList, "1_Add_Roles.sql".toList, "2_Create_Lookup_DB.sql".toList, "3_Create_Submit_DB.sql".toList]

def filesAfter : List Chars := ["4_Geocode_Data.sql".toList, "5_Lookup_Data.sql".toList]

def uri : Chars := "uri".toList

/-- `uri\":` -/
def needle : Chars := uri ++ ['"', ':']

/-- the calls of psql, with what `cf service-key` prints for its arguments, and what unzip does to the files -/
def execPsql (loc : ShellLocale) (fs : Files) (unzip : Files → Files) (serviceKey : List Chars → List Chars)
    (args : List Chars) : List Call :=
  match args with
  | [service, credential] =>
    let url := subst (grep needle (serviceKey (expand loc fs service ++ expand loc fs credential)))
    if url = [] then []
    else
      let v := parseUrl (echo (expand loc fs url))
      filesBefore.map (runPSQL loc fs v) ++ filesAfter.map (runPSQL loc (unzip fs) v)
  | _ => []

/-! ## The URI -/

/-- what may stand as it is in the user -/
def userChar (c : Char) : Bool := c.isAlphanum || c ∈ "-._~!$&'()*+,;=".toList

def passwordChar (c : Char) : Bool := userChar c || c = ':'

/-- a segment of a path -/
def segmentChar (c : Char) : Bool := passwordChar c || c = '@'

def hostChar (c : Char) : Bool := c.isAlphanum || c = '-' || c = '.' || c = '_'

/-- the parts, and how the three are written that may need an escape -/
structure Uri where
  user : Chars
  password : Chars
  host : Chars
  port : Chars
  dbname : Chars
  rawUser : Chars
  rawPassword : Chars
  rawDbname : Chars
  user_encoded : Encodes userChar rawUser user
  password_encoded : Encodes passwordChar rawPassword password
  dbname_encoded : Encodes segmentChar rawDbname dbname
  host_ne : host ≠ []
  host_chars : ∀ c ∈ host, hostChar c = true
  port_ne : port ≠ []
  port_digits : ∀ c ∈ port, c.isDigit = true

/-- the parts as they are written -/
def Uri.written (u : Uri) : Vars := ⟨u.rawUser, u.rawPassword, u.host, u.port, u.rawDbname⟩

def postgres : Chars := "postgres".toList

/-- a URI in quotes, and what follows it -/
def quotedUri (p : Vars) (tail : Chars) : Chars :=
  '"' :: postgres ++ ':' :: '/' :: '/' :: p.user ++ ':' :: p.password ++ '@' :: p.host ++ ':' :: p.port ++
    '/' :: p.dbname ++ '"' :: tail

/-- the lines that `cf service-key` prints: the one with the URI, its indentation, and a comma if more members follow -/
structure Printed where
  before : List Chars
  indent : Chars
  comma : Bool
  after : List Chars
  indent_blank : ∀ c ∈ indent, c = ' ' ∨ c = '\t'

def Printed.tail (out : Printed) : Chars := if out.comma then [','] else []

def Printed.word (out : Printed) (u : Uri) : Chars := quotedUri u.written out.tail

/-- `"uri":` -/
def uriKey : Chars := '"' :: needle

def Printed.line (out : Printed) (u : Uri) : Chars := out.indent ++ uriKey ++ ' ' :: out.word u

def Printed.lines (out : Printed) (u : Uri) : List Chars := out.before ++ out.line u :: out.after

/-- no other line contains `uri":` -/
def Printed.Alone (out : Printed) : Prop := ∀ l ∈ out.before ++ out.after, ¬ needle <:+: l

/-- the call of psql with the parts of the URI -/
def rightCall (u : Uri) (file : Chars) : Call := ⟨u.password, psqlArgs [u.user] [u.dbname] [u.port] [u.host] [file]⟩

/-- in every directory, psql is called with the parts of the URI, once for each file -/
def CallsRight (out : Printed) (u : Uri) : Prop :=
  ∀ loc fs unzip serviceKey service credential,
    serviceKey (expand loc fs service ++ expand loc fs credential) = out.lines u →
      execPsql loc fs unzip serviceKey [service, credential] = (filesBefore ++ filesAfter).map (rightCall u)

/-- the written parts that come through as they are -/
structure Clean (u : Uri) : Prop where
  user_ne : u.rawUser ≠ []
  user_percent : '%' ∉ u.rawUser
  user_star : '*' ∉ u.rawUser
  password_colon : ':' ∉ u.rawPassword
  password_percent : '%' ∉ u.rawPassword
  password_star : '*' ∉ u.rawPassword
  dbname_ne : u.rawDbname ≠ []
  dbname_colon : ':' ∉ u.rawDbname
  dbname_comma : ',' ∉ u.rawDbname
  dbname_percent : '%' ∉ u.rawDbname
  dbname_star : '*' ∉ u.rawDbname

/-! ## The characters of the parts -/

/-- characters with a meaning to the shell or to the line, apart from colons, at signs, commas and stars -/
def specials : Chars := [' ', '\t', '\n', '?', '[', '\\', '"', '/']

def Ordinary (s : Chars) : Prop := ∀ c ∈ s, c ∉ specials

theorem Ordinary.not_mem {s : Chars} (h : Ordinary s) {c : Char} (hc : c ∈ specials) : c ∉ s := fun hm => h c hm hc

theorem ordinary_raw {safe : Char → Bool} {raw value : Chars} (h : Encodes safe raw value)
    (hsafe : specials.all (fun c => !safe c) = true) : Ordinary raw := by
  have hcodes : specials.all (fun c => c ≠ '%' && (JsonLex.hexValue c).isNone) = true := by decide
  intro c hc hspecial
  have hcode := List.all_eq_true.1 hcodes c hspecial
  rw [Bool.and_eq_true, decide_eq_true_eq, Option.isNone_iff_eq_none] at hcode
  have hfalse : safe c = false := by simpa using List.all_eq_true.1 hsafe c hspecial
  exact PercentEncoding.not_mem_raw h hfalse hcode.1 hcode.2 hc

theorem ordinary_of {safe : Char → Bool} {s : Chars} (h : ∀ c ∈ s, safe c = true)
    (hsafe : specials.all (fun c => !safe c) = true) : Ordinary s := by
  intro c hc hspecial
  have hfalse : safe c = false := by simpa using List.all_eq_true.1 hsafe c hspecial
  rw [h c hc] at hfalse
  cases hfalse

theorem Ordinary.space {s : Chars} (h : Ordinary s) : ∀ c ∈ s, isSpace c = false := by
  intro c hc
  have hnot := h c hc
  simp only [specials, List.mem_cons, not_or] at hnot
  simp [isSpace, hnot.1, hnot.2.1, hnot.2.2.1]

/-- no wildcard but the star -/
theorem Ordinary.pattern {s : Chars} (h : Ordinary s) : ∀ c ∈ s, c ≠ '?' ∧ c ≠ '[' ∧ c ≠ '\\' := by
  intro c hc
  have hnot := h c hc
  simp only [specials, List.mem_cons, not_or] at hnot
  exact ⟨hnot.2.2.2.1, hnot.2.2.2.2.1, hnot.2.2.2.2.2.1⟩

theorem Ordinary.plain {s : Chars} (h : Ordinary s) (hstar : '*' ∉ s) : ∀ c ∈ s, plainChar c = true := by
  intro c hc
  have hne : c ≠ '*' := fun he => hstar (he ▸ hc)
  exact plainChar_iff.2 ⟨h.space c hc, hne, h.pattern c hc⟩

/-- what the parts of a URI do not contain -/
structure Written (p : Vars) : Prop where
  user : Ordinary p.user
  user_colon : ':' ∉ p.user
  password : Ordinary p.password
  password_at : '@' ∉ p.password
  host : Ordinary p.host
  host_colon : ':' ∉ p.host
  host_at : '@' ∉ p.host
  port : Ordinary p.port
  port_colon : ':' ∉ p.port
  dbname : Ordinary p.dbname

theorem written (u : Uri) : Written u.written where
  user := ordinary_raw u.user_encoded (by decide)
  user_colon := PercentEncoding.not_mem_raw u.user_encoded (by decide) (by decide) (by decide)
  password := ordinary_raw u.password_encoded (by decide)
  password_at := PercentEncoding.not_mem_raw u.password_encoded (by decide) (by decide) (by decide)
  host := ordinary_of u.host_chars (by decide)
  host_colon := fun h => absurd (u.host_chars _ h) (by decide)
  host_at := fun h => absurd (u.host_chars _ h) (by decide)
  port := ordinary_of u.port_digits (by decide)
  port_colon := fun h => absurd (u.port_digits _ h) (by decide)
  dbname := ordinary_raw u.dbname_encoded (by decide)

/-! ## The fields of the line -/

/-- the line as fields between colons -/
theorem line_fields (p : Vars) (tail : Chars) : uriKey ++ ' ' :: quotedUri p tail =
    ('"' :: uri ++ ['"']) ++ ':' :: (' ' :: '"' :: postgres ++ ':' :: ('/' :: '/' :: p.user ++ ':' ::
      (p.password ++ '@' :: (p.host ++ ':' :: (p.port ++ '/' :: (p.dbname ++ '"' :: tail)))))) := by
  simp [uriKey, needle, quotedUri]

section
variable {p : Vars} {tail : Chars}

/-- what stands around the parts -/
def punctuation : Chars := '"' :: '/' :: ':' :: '@' :: ',' :: postgres

theorem quotedUri_all {P : Char → Prop}
    (hparts : ∀ s ∈ [p.user, p.password, p.host, p.port, p.dbname], ∀ c ∈ s, P c) (hmarks : ∀ c ∈ punctuation, P c)
    (htail : tail = [] ∨ tail = [',']) : ∀ c ∈ quotedUri p tail, P c := by
  have hrest : ∀ c ∈ tail, P c := by
    intro c hc
    rcases htail with rfl | rfl
    · exact absurd hc List.not_mem_nil
    · exact hmarks c (by rw [List.mem_singleton.1 hc]; simp [punctuation])
  simp only [List.forall_mem_cons, List.not_mem_nil, false_imp_iff, implies_true, and_true] at hparts
  simp only [punctuation, List.forall_mem_cons] at hmarks
  obtain ⟨huser, hpassword, hhost, hport, hdbname⟩ := hparts
  obtain ⟨hquote, hslash, hcolon, hat, -, hscheme⟩ := hmarks
  simp only [quotedUri, List.cons_append, List.append_assoc, List.forall_mem_cons, List.forall_mem_append]
  exact ⟨hquote, hscheme, hcolon, hslash, hslash, huser, hcolon, hpassword, hat, hhost, hcolon, hport, hslash, hdbname,
    hquote, hrest⟩

theorem Written.all (h : Written p) : ∀ s ∈ [p.user, p.password, p.host, p.port, p.dbname], Ordinary s := by
  simp only [List.forall_mem_cons, List.not_mem_nil, false_imp_iff, implies_true, and_true]
  exact ⟨h.user, h.password, h.host, h.port, h.dbname⟩

/-- the URI is one word -/
theorem quotedUri_space (h : Written p) (htail : tail = [] ∨ tail = [',']) :
    ∀ c ∈ quotedUri p tail, isSpace c = false := by
  have hmarks : punctuation.all (fun c => !isSpace c) = true := by decide
  refine quotedUri_all (fun s hs => (h.all s hs).space) (fun c hc => ?_) htail
  simpa using List.all_eq_true.1 hmarks c hc

/-- without stars, it has nothing that the shell expands -/
theorem quotedUri_plain (h : Written p) (hstars : ∀ s ∈ [p.user, p.password, p.host, p.port, p.dbname], '*' ∉ s)
    (htail : tail = [] ∨ tail = [',']) : ∀ c ∈ quotedUri p tail, plainChar c = true := by
  have hmarks : punctuation.all plainChar = true := by decide
  exact quotedUri_all (fun s hs => (h.all s hs).plain (hstars s hs)) (List.all_eq_true.1 hmarks) htail

theorem line_newline (h : Written p) (htail : tail = [] ∨ tail = [',']) : '\n' ∉ uriKey ++ ' ' :: quotedUri p tail := by
  have hword : '\n' ∉ quotedUri p tail := fun hc => absurd (quotedUri_space h htail _ hc) (by decide)
  have hkey : '\n' ∉ uriKey := by decide
  simp [hkey, hword]

theorem echo_line (h : Written p) (htail : tail = [] ∨ tail = [',']) :
    echo [uriKey, quotedUri p tail] = [uriKey ++ ' ' :: quotedUri p tail] := by
  have hjoin : [' '].intercalate [uriKey, quotedUri p tail] = uriKey ++ ' ' :: quotedUri p tail := by simp
  rw [echo, hjoin, List.splitOn_eq_singleton (line_newline h htail)]

/-- the fields from the third on -/
theorem line_from (p : Vars) (tail : Chars) (n : ℕ) : field ':' (n + 3) (uriKey ++ ' ' :: quotedUri p tail) =
    field ':' (n + 1) ('/' :: '/' :: p.user ++ ':' ::
      (p.password ++ '@' :: (p.host ++ ':' :: (p.port ++ '/' :: (p.dbname ++ '"' :: tail))))) := by
  have hkey : ':' ∉ '"' :: uri ++ ['"'] := by decide
  have hscheme : ':' ∉ ' ' :: '"' :: postgres := by decide
  rw [line_fields, field_skip hkey (Or.inl (by simp)), field_skip hscheme (Or.inl (by simp))]

theorem user_colon (h : Written p) : ':' ∉ '/' :: '/' :: p.user := by simp [h.user_colon]

/-- the third field is the user, behind two slashes -/
theorem field_user (h : Written p) : field ':' 3 (uriKey ++ ' ' :: quotedUri p tail) = '/' :: '/' :: p.user := by
  rw [line_from p tail 0, field_head (user_colon h)]

/-- the fourth field begins with the password -/
theorem field_password (h : Written p) : field ':' 4 (uriKey ++ ' ' :: quotedUri p tail) =
    field ':' 1 (p.password ++ '@' :: (p.host ++ ':' :: (p.port ++ '/' :: (p.dbname ++ '"' :: tail)))) := by
  rw [line_from p tail 1, field_skip (user_colon h) (Or.inr rfl)]

/-- the fifth field begins with the port, where the password has no colon -/
theorem field_port (h : Written p) (hpassword : ':' ∉ p.password) :
    field ':' 5 (uriKey ++ ' ' :: quotedUri p tail) = field ':' 1 (p.port ++ '/' :: (p.dbname ++ '"' :: tail)) := by
  have haddress : ':' ∉ p.password ++ '@' :: p.host := by simp [hpassword, h.host_colon]
  have hassoc : p.password ++ '@' :: (p.host ++ ':' :: (p.port ++ '/' :: (p.dbname ++ '"' :: tail))) =
      (p.password ++ '@' :: p.host) ++ ':' :: (p.port ++ '/' :: (p.dbname ++ '"' :: tail)) := by simp
  rw [line_from p tail 2, field_skip (user_colon h) (Or.inl (by simp)), hassoc, field_skip haddress (Or.inr rfl)]

/-- up to a character -/
def upTo (d : Char) (s : Chars) : Chars := s.takeWhile fun c => decide (c ≠ d)

theorem upTo_comm (d e : Char) (s : Chars) : upTo d (upTo e s) = upTo e (upTo d s) := by
  simp only [upTo, List.takeWhile_takeWhile, and_comm]

theorem not_mem_upTo (d : Char) (s : Chars) : d ∉ upTo d s := by
  intro h
  have hne := List.mem_takeWhile_imp h
  exact of_decide_eq_true hne rfl

theorem upTo_whole {d : Char} {s : Chars} (h : d ∉ s) : upTo d s = s :=
  List.takeWhile_eq_self_iff.2 fun _ hc => decide_eq_true fun he => h (he ▸ hc)

theorem upTo_head {d : Char} {a : Chars} (ha : d ∉ a) (b : Chars) : upTo d (a ++ d :: b) = a := by
  rw [upTo, ← field_one, field_head ha]

theorem upTo_skip {d : Char} {a : Chars} (ha : d ∉ a) (b : Chars) : upTo d (a ++ b) = a ++ upTo d b :=
  List.takeWhile_append_of_pos fun _ hc => decide_eq_true fun he => ha (he ▸ hc)

theorem upTo_found {d : Char} {a : Chars} (ha : d ∈ a) (b : Chars) : upTo d (a ++ b) = upTo d a := by
  obtain ⟨x, y, rfl, hx⟩ := List.eq_append_cons_of_mem ha
  rw [List.append_assoc, List.cons_append, upTo_head hx, upTo_head hx]

/-- what the script makes of a written database name -/
def takenDbname (s : Chars) : Chars := (upTo ':' s).filter fun c => decide (c ∉ ['"', ','])

theorem mem_takenDbname {s : Chars} {c : Char} (hc : c ∈ takenDbname s) : c ∈ s ∧ c ≠ ':' ∧ c ≠ ',' := by
  have hupTo := List.mem_of_mem_filter hc
  have hkept := List.of_mem_filter hc
  refine ⟨(List.takeWhile_prefix _).subset hupTo, fun he => not_mem_upTo _ _ (he ▸ hupTo), ?_⟩
  intro he
  rw [he] at hkept
  exact absurd hkept (by decide)

theorem takenDbname_whole {s : Chars} (h : Ordinary s) (hcolon : ':' ∉ s) (hcomma : ',' ∉ s) : takenDbname s = s := by
  rw [takenDbname, upTo_whole hcolon, List.filter_eq_self]
  intro c hc
  have hquote : c ≠ '"' := fun he => h.not_mem (by decide) (he ▸ hc)
  have hne : c ≠ ',' := fun he => hcomma (he ▸ hc)
  simp [hquote, hne]

theorem parse_user (h : Written p) (htail : tail = [] ∨ tail = [',']) :
    (parseUrl (echo [uriKey, quotedUri p tail])).user = p.user := by
  have hslash : '/' ∉ p.user := h.user.not_mem (by decide)
  have hnl : '\n' ∉ p.user := h.user.not_mem (by decide)
  have hthird : field '/' 3 ('/' :: '/' :: p.user) = p.user :=
    calc field '/' 3 ('/' :: '/' :: p.user)
        = field '/' 2 ('/' :: p.user) := field_skip (a := []) List.not_mem_nil (Or.inl List.mem_cons_self)
      _ = field '/' 1 p.user := field_skip (a := []) List.not_mem_nil (Or.inr rfl)
      _ = p.user := field_whole hslash 1
  simp only [parseUrl, echo_line h htail, cut, List.map_singleton, field_user h, hthird, subst_line hnl]

/-- a colon in the password ends it -/
theorem parse_password (h : Written p) (htail : tail = [] ∨ tail = [',']) :
    (parseUrl (echo [uriKey, quotedUri p tail])).password = upTo ':' p.password := by
  have hnl : '\n' ∉ upTo ':' p.password := fun hm =>
    h.password.not_mem (by decide) ((List.takeWhile_prefix _).subset hm)
  have hcut : ∀ s, field '@' 1 (field ':' 1 (p.password ++ '@' :: s)) = upTo ':' p.password := by
    intro s
    calc field '@' 1 (field ':' 1 (p.password ++ '@' :: s))
        = upTo '@' (upTo ':' (p.password ++ '@' :: s)) := by rw [field_one, field_one]; rfl
      _ = upTo ':' (upTo '@' (p.password ++ '@' :: s)) := upTo_comm _ _ _
      _ = upTo ':' p.password := by rw [upTo_head h.password_at]
  simp only [parseUrl, echo_line h htail, cut, List.map_singleton, field_password h, hcut, subst_line hnl]

theorem parse_host (h : Written p) (htail : tail = [] ∨ tail = [',']) (hpassword : ':' ∉ p.password) :
    (parseUrl (echo [uriKey, quotedUri p tail])).host = p.host := by
  have hnl : '\n' ∉ p.host := h.host.not_mem (by decide)
  have hcut : ∀ s, field '@' 2 (field ':' 1 (p.password ++ '@' :: (p.host ++ ':' :: s))) = p.host := by
    intro s
    have haddress : ':' ∉ p.password ++ '@' :: p.host := by simp [hpassword, h.host_colon]
    have hassoc : p.password ++ '@' :: (p.host ++ ':' :: s) = (p.password ++ '@' :: p.host) ++ ':' :: s := by simp
    rw [hassoc, field_head haddress, field_skip h.password_at (Or.inr rfl), field_whole h.host_at]
  simp only [parseUrl, echo_line h htail, cut, List.map_singleton, field_password h, hcut, subst_line hnl]

theorem parse_port (h : Written p) (htail : tail = [] ∨ tail = [',']) (hpassword : ':' ∉ p.password) :
    (parseUrl (echo [uriKey, quotedUri p tail])).port = p.port := by
  have hnl : '\n' ∉ p.port := h.port.not_mem (by decide)
  have hslash : '/' ∉ p.port := h.port.not_mem (by decide)
  have hcut : ∀ s, field '/' 1 (field ':' 1 (p.port ++ '/' :: s)) = p.port := by
    intro s
    calc field '/' 1 (field ':' 1 (p.port ++ '/' :: s))
        = upTo '/' (upTo ':' (p.port ++ '/' :: s)) := by rw [field_one, field_one]; rfl
      _ = upTo ':' (upTo '/' (p.port ++ '/' :: s)) := upTo_comm _ _ _
      _ = upTo ':' p.port := by rw [upTo_head hslash]
      _ = p.port := upTo_whole h.port_colon
  simp only [parseUrl, echo_line h htail, cut, List.map_singleton, field_port h hpassword, hcut, subst_line hnl]

/-- a colon in the database name ends it, and commas are dropped -/
theorem parse_dbname (h : Written p) (htail : tail = [] ∨ tail = [',']) (hpassword : ':' ∉ p.password) :
    (parseUrl (echo [uriKey, quotedUri p tail])).dbname = takenDbname p.dbname := by
  have hfound : ∀ c ∈ upTo ':' (p.dbname ++ '"' :: tail), c ∈ p.dbname ∨ c = '"' ∨ c = ',' := by
    intro c hc
    rcases List.mem_append.1 ((List.takeWhile_prefix _).subset hc) with hc | hc
    · exact Or.inl hc
    · rcases List.mem_cons.1 hc with hc | hc
      · exact Or.inr (Or.inl hc)
      · rcases htail with rfl | rfl
        · exact absurd hc List.not_mem_nil
        · exact Or.inr (Or.inr (List.mem_singleton.1 hc))
  have hslash : '/' ∉ upTo ':' (p.dbname ++ '"' :: tail) := by
    intro hc
    rcases hfound _ hc with hc | hc | hc
    · exact h.dbname.not_mem (by decide) hc
    · cases hc
    · cases hc
  have hcut : field '/' 2 (field ':' 1 (p.port ++ '/' :: (p.dbname ++ '"' :: tail))) =
      upTo ':' (p.dbname ++ '"' :: tail) := by
    have hport : '/' ∉ p.port := h.port.not_mem (by decide)
    have hends : field ':' 1 (p.port ++ '/' :: (p.dbname ++ '"' :: tail)) =
        p.port ++ '/' :: upTo ':' (p.dbname ++ '"' :: tail) := by
      have hcolon : ':' ∉ p.port ++ ['/'] := by simp [h.port_colon]
      have hskip := upTo_skip hcolon (p.dbname ++ '"' :: tail)
      rw [List.append_assoc, List.append_assoc] at hskip
      exact (field_one ':' _).trans hskip
    rw [hends, field_skip hport (Or.inr rfl), field_whole hslash]
  -- the quote and the comma behind the name go, whether or not it has a colon
  have hfilter : (upTo ':' (p.dbname ++ '"' :: tail)).filter (fun c => decide (c ∉ ['"', ','])) =
      takenDbname p.dbname := by
    unfold takenDbname
    by_cases hcolon : ':' ∈ p.dbname
    · rw [upTo_found hcolon]
    · have hrest : (upTo ':' ('"' :: tail)).filter (fun c => decide (c ∉ ['"', ','])) = [] := by
        rcases htail with rfl | rfl <;> rfl
      rw [upTo_skip hcolon, List.filter_append, hrest, List.append_nil, upTo_whole hcolon]
  have hnl : '\n' ∉ takenDbname p.dbname := fun hm => h.dbname.not_mem (by decide) (mem_takenDbname hm).1
  simp only [parseUrl, echo_line h htail, cut, tr, List.map_singleton, field_port h hpassword, hcut, hfilter,
    subst_line hnl]

end

/-! ## The words of the line -/

section
variable (out : Printed) (u : Uri)

theorem tail_cases : out.tail = [] ∨ out.tail = [','] := by
  unfold Printed.tail
  split_ifs
  · exact Or.inr rfl
  · exact Or.inl rfl

theorem grep_alone (h : out.Alone) : grep needle (out.lines u) = [out.line u] := by
  have hfound : needle <:+: out.line u :=
    ⟨out.indent ++ ['"'], ' ' :: out.word u, by simp [Printed.line, uriKey]⟩
  have hnone : ∀ lines : List Chars, (∀ l ∈ lines, l ∈ out.before ++ out.after) →
      lines.filter (fun l => decide (needle <:+: l)) = [] := by
    intro lines hlines
    rw [List.filter_eq_nil_iff]
    intro l hl
    simpa using h l (hlines l hl)
  rw [grep, Printed.lines, List.filter_append,
    List.filter_cons_of_pos (p := fun l => decide (needle <:+: l)) (decide_eq_true hfound),
    hnone _ fun l hl => List.mem_append_left _ hl, hnone _ fun l hl => List.mem_append_right _ hl]
  rfl

theorem subst_printed : subst [out.line u] = out.line u := by
  refine subst_line ?_
  have hindent : '\n' ∉ out.indent := by
    intro hc
    rcases out.indent_blank _ hc with he | he <;> exact absurd he (by decide)
  have hline := line_newline (written u) (tail_cases out)
  rw [Printed.line, List.append_assoc, List.mem_append]
  exact not_or.2 ⟨hindent, hline⟩

/-- the key is a word, and the URI is one that may be expanded -/
theorem expand_printed (loc : ShellLocale) (fs : Files) :
    expand loc fs (out.line u) = uriKey :: glob loc fs (out.word u) := by
  have hindent : ∀ c ∈ out.indent, isSpace c = true := by
    intro c hc
    rcases out.indent_blank c hc with rfl | rfl <;> rfl
  have hkey : uriKey.all plainChar = true := by decide
  have hspace : ∀ c ∈ uriKey, isSpace c = false := fun c hc => (plainChar_iff.1 (List.all_eq_true.1 hkey c hc)).1
  have hne : uriKey ≠ [] := List.cons_ne_nil _ _
  have hword : out.word u ≠ [] := List.cons_ne_nil _ _
  have hsplit : split (out.line u) = [uriKey, out.word u] := by
    rw [Printed.line, List.append_assoc, split_indent hindent, split_append (by decide), split_word hne hspace,
      split_word hword (quotedUri_space (written u) (tail_cases out))]
    rfl
  rw [expand, hsplit, List.flatMap_cons, List.flatMap_singleton, glob_plain (List.all_eq_true.1 hkey)]
  rfl

theorem exec_alone (h : out.Alone) {loc : ShellLocale} {fs : Files} {serviceKey : List Chars → List Chars}
    {service credential : Chars}
    (hkey : serviceKey (expand loc fs service ++ expand loc fs credential) = out.lines u) (unzip : Files → Files) :
    execPsql loc fs unzip serviceKey [service, credential] =
      let v := parseUrl (echo (uriKey :: glob loc fs (out.word u)))
      filesBefore.map (runPSQL loc fs v) ++ filesAfter.map (runPSQL loc (unzip fs) v) := by
  have hne : out.line u ≠ [] := by simp [Printed.line]
  simp only [execPsql, hkey, grep_alone out u h, subst_printed, if_neg hne, expand_printed]

end

/-! ## Clean parts -/

theorem parse_clean {u : Uri} (h : Clean u) {tail : Chars} (htail : tail = [] ∨ tail = [',']) :
    parseUrl (echo [uriKey, quotedUri u.written tail]) = u.written := by
  have hw := written u
  apply Vars.ext
  · exact parse_user hw htail
  · exact (parse_password hw htail).trans (upTo_whole h.password_colon)
  · exact parse_host hw htail h.password_colon
  · exact parse_port hw htail h.password_colon
  · have hdbname := parse_dbname hw htail h.password_colon
    exact hdbname.trans (takenDbname_whole hw.dbname h.dbname_colon h.dbname_comma)

theorem host_star (u : Uri) : '*' ∉ u.host := fun h => absurd (u.host_chars _ h) (by decide)

theorem port_star (u : Uri) : '*' ∉ u.port := fun h => absurd (u.port_digits _ h) (by decide)

theorem expand_file {file : Chars} (hfile : file ∈ filesBefore ++ filesAfter) (loc : ShellLocale) (fs : Files) :
    expand loc fs file = [file] := by
  have hfiles : (filesBefore ++ filesAfter).all (fun f => !f.isEmpty && f.all plainChar) = true := by decide
  have hplain := List.all_eq_true.1 hfiles file hfile
  rw [Bool.and_eq_true] at hplain
  exact expand_plain (by simpa using hplain.1) (List.all_eq_true.1 hplain.2)

theorem run_clean {u : Uri} (h : Clean u) (loc : ShellLocale) (fs : Files) {file : Chars}
    (hfile : file ∈ filesBefore ++ filesAfter) : runPSQL loc fs u.written file = rightCall u file := by
  have hw := written u
  have huser : u.rawUser = u.user := PercentEncoding.raw_eq u.user_encoded h.user_percent
  have hpassword : u.rawPassword = u.password := PercentEncoding.raw_eq u.password_encoded h.password_percent
  have hdbname : u.rawDbname = u.dbname := PercentEncoding.raw_eq u.dbname_encoded h.dbname_percent
  have h1 : expand loc fs u.rawUser = [u.rawUser] := expand_plain h.user_ne (hw.user.plain h.user_star)
  have h2 : expand loc fs u.rawDbname = [u.rawDbname] := expand_plain h.dbname_ne (hw.dbname.plain h.dbname_star)
  have h3 : expand loc fs u.port = [u.port] := expand_plain u.port_ne (hw.port.plain (port_star u))
  have h4 : expand loc fs u.host = [u.host] := expand_plain u.host_ne (hw.host.plain (host_star u))
  rw [huser] at h1
  rw [hdbname] at h2
  simp only [runPSQL, rightCall, Uri.written, h1, h2, h3, h4, expand_file hfile, huser, hpassword, hdbname]

/-- **Clean parts come back as they were**, in every directory. -/
theorem clean_calls {u : Uri} (h : Clean u) {out : Printed} (halone : out.Alone) : CallsRight out u := by
  intro loc fs unzip serviceKey service credential hkey
  have hstars : ∀ s ∈ [u.rawUser, u.rawPassword, u.host, u.port, u.rawDbname], '*' ∉ s := by
    simp only [List.forall_mem_cons, List.not_mem_nil, false_imp_iff, implies_true, and_true]
    exact ⟨h.user_star, h.password_star, host_star u, port_star u, h.dbname_star⟩
  have hglob : glob loc fs (out.word u) = [out.word u] :=
    glob_plain (quotedUri_plain (written u) hstars (tail_cases out))
  have hparse : parseUrl (echo [uriKey, out.word u]) = u.written := parse_clean h (tail_cases out)
  have hbefore : filesBefore.map (runPSQL loc fs u.written) = filesBefore.map (rightCall u) :=
    List.map_congr_left fun file hfile => run_clean h loc fs (List.mem_append_left _ hfile)
  have hafter : filesAfter.map (runPSQL loc (unzip fs) u.written) = filesAfter.map (rightCall u) :=
    List.map_congr_left fun file hfile => run_clean h loc (unzip fs) (List.mem_append_right _ hfile)
  simp only [exec_alone out u halone hkey, hglob, hparse]
  rw [hbefore, hafter, List.map_append]

/-! ## Directories -/

/-- a directory with these files -/
def flatDir (names : List Chars) : Files := ⟨[], names.map fun name => ([name], .file [])⟩

theorem flatDir_base (names : List Chars) (s : Chars) : (flatDir names).base s = [] := by
  unfold Files.base
  split_ifs <;> rfl

theorem flatDir_names (names : List Chars) : (flatDir names).names [] = names := by
  induction names with
  | nil => rfl
  | cons name names ih =>
    have hcons : (flatDir (name :: names)).names [] = name :: (flatDir names).names [] := rfl
    rw [hcons, ih]

theorem flatDir_at (names : List Chars) : (flatDir names).at [] = some .dir := rfl

section
variable {loc : ShellLocale} {names : List Chars}

theorem expand_ordinary {s : Chars} (h : Ordinary s) (hne : s ≠ []) (fs : Files) : expand loc fs s = glob loc fs s := by
  rw [expand, split_word hne h.space, List.flatMap_singleton]

theorem not_dots {s : Chars} (hstar : '*' ∈ s) : ¬ (s = [] ∨ s = ['.'] ∨ s = ['.', '.']) := by
  intro h
  rcases h with rfl | rfl | rfl <;> exact absurd hstar (by decide)

/-- without files, a part stands for itself -/
theorem expand_noFiles {s : Chars} (h : Ordinary s) (hne : s ≠ []) : expand loc (flatDir []) s = [s] := by
  by_cases hstar : '*' ∈ s
  · rw [expand_ordinary h hne]
    refine glob_unmatched (List.splitOn_eq_singleton (h.not_mem (by decide))) ?_ (not_dots hstar) ?_
    · rw [flatDir_base, flatDir_at]
    · rw [flatDir_base, flatDir_names]
      exact fun name hname => absurd hname List.not_mem_nil
  · exact expand_plain hne (h.plain hstar)

/-- a part with a star becomes the name of a file that it matches -/
theorem expand_doubled {s : Chars} (h : Ordinary s) (hstar : '*' ∈ s) :
    expand loc (flatDir [doubled s]) s = [doubled s] := by
  have hne : s ≠ [] := List.ne_nil_of_mem hstar
  have hpattern := h.pattern
  have hone : globFrom loc (flatDir [doubled s]) ((flatDir [doubled s]).base s) (s.splitOn '/') = [[doubled s]] := by
    rw [List.splitOn_eq_singleton (h.not_mem (by decide)), flatDir_base,
      globFrom_one (flatDir_at _) (not_dots hstar) (flatDir_names _) (matchName_doubled hpattern), globFrom,
      List.map_singleton]
  rw [expand_ordinary h hne, glob_one (wild_star hpattern hstar) hone, List.intercalate_singleton]

/-! ## Parts that are not clean -/

/-- the first component of the URI, as a path -/
def schemeName : Chars := '"' :: postgres ++ [':']

def addressName (p : Vars) : Chars := p.user ++ ':' :: (p.password ++ '@' :: (p.host ++ ':' :: p.port))

def dbName (p : Vars) (tail : Chars) : Chars := p.dbname ++ '"' :: tail

theorem schemeName_plain : ∀ c ∈ schemeName, plainChar c = true := List.all_eq_true.1 (by decide)

theorem quotedUri_path (p : Vars) (tail : Chars) :
    quotedUri p tail = schemeName ++ '/' :: ([] ++ '/' :: (addressName p ++ '/' :: dbName p tail)) := by
  simp [quotedUri, schemeName, addressName, dbName]

theorem quotedUri_split {p : Vars} {tail : Chars} (h : Written p) (htail : tail = [] ∨ tail = [',']) :
    (quotedUri p tail).splitOn '/' = [schemeName, [], addressName p, dbName p tail] := by
  have hslash : '/' ∈ specials := by decide
  have hscheme : '/' ∉ schemeName := by decide
  have haddress : '/' ∉ addressName p := by
    simp [addressName, h.user.not_mem hslash, h.password.not_mem hslash, h.host.not_mem hslash, h.port.not_mem hslash]
  have hdb : '/' ∉ dbName p tail := by
    have htail' : '/' ∉ tail := by rcases htail with rfl | rfl <;> decide
    simp [dbName, h.dbname.not_mem hslash, htail']
  rw [quotedUri_path, List.splitOn_append_cons_self_of_not_mem hscheme,
    List.splitOn_append_cons_self_of_not_mem List.not_mem_nil, List.splitOn_append_cons_self_of_not_mem haddress,
    List.splitOn_eq_singleton hdb]

/-- the URI is a path that is not there, in a directory without the scheme's name -/
theorem glob_word {p : Vars} {tail : Chars} (h : Written p) (htail : tail = [] ∨ tail = [','])
    (hnames : schemeName ∉ names) : glob loc (flatDir names) (quotedUri p tail) = [quotedUri p tail] := by
  refine glob_unmatched (quotedUri_split h htail) ?_ (by decide) ?_
  · rw [flatDir_base, flatDir_at]
  · rw [flatDir_base, flatDir_names]
    intro name hname
    rw [Bool.eq_false_iff]
    intro hmatch
    exact hnames ((matchName_plain schemeName_plain).1 hmatch ▸ hname)

/-- a directory in which the URI is the path of a file, with every star of the password twice -/
def uriDir (p : Vars) (tail : Chars) : Files where
  cwd := []
  nodes := [
    ([schemeName], .dir),
    ([schemeName, doubled (addressName p)], .dir),
    ([schemeName, doubled (addressName p), dbName p tail], .file [])]

theorem uriDir_root (p : Vars) (tail : Chars) : (uriDir p tail).names [] = [schemeName] := by
  simp [uriDir, Files.names]

theorem uriDir_scheme (p : Vars) (tail : Chars) : (uriDir p tail).at [schemeName] = some .dir ∧
    (uriDir p tail).names [schemeName] = [doubled (addressName p)] := by
  simp [uriDir, Files.names, Files.at]

theorem uriDir_address (p : Vars) (tail : Chars) :
    (uriDir p tail).at [schemeName, doubled (addressName p)] = some .dir ∧
      (uriDir p tail).names [schemeName, doubled (addressName p)] = [dbName p tail] := by
  simp [uriDir, Files.names, Files.at]

theorem addressName_pattern {p : Vars} (h : Written p) : ∀ c ∈ addressName p, c ≠ '?' ∧ c ≠ '[' ∧ c ≠ '\\' := by
  simp only [addressName, List.forall_mem_append, List.forall_mem_cons]
  exact ⟨h.user.pattern, by decide, h.password.pattern, by decide, h.host.pattern, by decide, h.port.pattern⟩

theorem dbName_plain {p : Vars} {tail : Chars} (h : Written p) (htail : tail = [] ∨ tail = [','])
    (hstar : '*' ∉ p.dbname) : ∀ c ∈ dbName p tail, plainChar c = true := by
  simp only [dbName, List.forall_mem_append, List.forall_mem_cons]
  refine ⟨h.dbname.plain hstar, by decide, ?_⟩
  rcases htail with rfl | rfl
  · exact fun c hc => absurd hc List.not_mem_nil
  · exact List.all_eq_true.1 (by decide)

theorem dbName_dots (p : Vars) (tail : Chars) :
    ¬ (dbName p tail = [] ∨ dbName p tail = ['.'] ∨ dbName p tail = ['.', '.']) := by
  have hquote : '"' ∈ dbName p tail := List.mem_append_right _ List.mem_cons_self
  intro hd
  rcases hd with hd | hd | hd <;> (rw [hd] at hquote; exact absurd hquote (by decide))

theorem quotedUri_wild {p : Vars} {tail : Chars} (h : Written p) (htail : tail = [] ∨ tail = [','])
    (hstar : '*' ∈ p.password) : wild loc (quotedUri p tail) = true := by
  have hmarks : punctuation.all (fun c => c ≠ '?' && c ≠ '[' && c ≠ '\\') = true := by decide
  refine wild_star (quotedUri_all (fun s hs => (h.all s hs).pattern) (fun c hc => ?_) htail) ?_
  · simpa [and_assoc] using List.all_eq_true.1 hmarks c hc
  · simp [quotedUri, hstar]

/-- there, the URI becomes this path -/
theorem glob_uriDir {p : Vars} {tail : Chars} (h : Written p) (htail : tail = [] ∨ tail = [','])
    (hstar : '*' ∈ p.password) (hdbname : '*' ∉ p.dbname) :
    glob loc (uriDir p tail) (quotedUri p tail) =
      [['/'].intercalate [schemeName, [], doubled (addressName p), dbName p tail]] := by
  have haddress : '*' ∈ addressName p := by simp [addressName, hstar]
  obtain ⟨hscheme_dir, hscheme_names⟩ := uriDir_scheme p tail
  obtain ⟨haddress_dir, haddress_names⟩ := uriDir_address p tail
  have hbase : (uriDir p tail).base (quotedUri p tail) = [] := by
    unfold Files.base
    split_ifs <;> rfl
  refine glob_one (quotedUri_wild h htail hstar) ?_
  calc globFrom loc (uriDir p tail) ((uriDir p tail).base (quotedUri p tail)) ((quotedUri p tail).splitOn '/')
      = globFrom loc (uriDir p tail) [] [schemeName, [], addressName p, dbName p tail] := by
        rw [quotedUri_split h htail, hbase]
    _ = (globFrom loc (uriDir p tail) [schemeName] [[], addressName p, dbName p tail]).map (schemeName :: ·) :=
        globFrom_one rfl (by decide) (uriDir_root p tail) ((matchName_plain schemeName_plain).2 rfl) _
    _ = ((globFrom loc (uriDir p tail) [schemeName] [addressName p, dbName p tail]).map ([] :: ·)).map
          (schemeName :: ·) := by rw [globFrom_slash hscheme_dir]
    _ = (((globFrom loc (uriDir p tail) [schemeName, doubled (addressName p)] [dbName p tail]).map
          (doubled (addressName p) :: ·)).map ([] :: ·)).map (schemeName :: ·) := by
        rw [globFrom_one hscheme_dir (not_dots haddress) hscheme_names (matchName_doubled (addressName_pattern h))]
        rfl
    _ = [[schemeName, [], doubled (addressName p), dbName p tail]] := by
        rw [globFrom_one haddress_dir (dbName_dots p tail) haddress_names
          ((matchName_plain (dbName_plain h htail hdbname)).2 rfl), globFrom]
        rfl

/-- this path is the URI with another password -/
theorem path_doubled {p : Vars} {tail : Chars} (huser : '*' ∉ p.user) (hhost : '*' ∉ p.host) (hport : '*' ∉ p.port) :
    ['/'].intercalate [schemeName, [], doubled (addressName p), dbName p tail] =
      quotedUri { p with password := doubled p.password } tail := by
  have haddress : doubled (addressName p) = addressName { p with password := doubled p.password } := by
    have hcolon : ∀ s, doubled (':' :: s) = ':' :: doubled s := fun s => rfl
    have hat : ∀ s, doubled ('@' :: s) = '@' :: doubled s := fun s => rfl
    simp only [addressName, doubled_append, hcolon, hat, doubled_plain huser, doubled_plain hhost, doubled_plain hport]
  rw [quotedUri_path, haddress]
  simp [List.intercalate, dbName]

end

/-- the first call, in any directory -/
theorem first_call {out : Printed} {u : Uri} (h : CallsRight out u) (halone : out.Alone) (loc : ShellLocale)
    (fs : Files) {v : Vars} (hv : parseUrl (echo (uriKey :: glob loc fs (out.word u))) = v) :
    v.password = u.password ∧
      psqlArgs (expand loc fs v.user) (expand loc fs v.dbname) (expand loc fs v.port) (expand loc fs v.host)
        ["Drop_DB.sql".toList] = psqlArgs [u.user] [u.dbname] [u.port] [u.host] ["Drop_DB.sql".toList] := by
  have hcalls := h loc fs id (fun _ => out.lines u) [] [] rfl
  rw [exec_alone out u halone rfl, hv] at hcalls
  have hfirst : runPSQL loc fs v "Drop_DB.sql".toList = rightCall u "Drop_DB.sql".toList :=
    Option.some.inj (congrArg List.head? hcalls)
  have hfile : expand loc fs "Drop_DB.sql".toList = ["Drop_DB.sql".toList] :=
    expand_file (List.mem_append_left _ List.mem_cons_self) loc fs
  have hargs := congrArg Call.args hfirst
  rw [runPSQL, hfile] at hargs
  exact ⟨congrArg Call.password hfirst, hargs⟩

section
variable {user dbname port host file port' host' file' : List Chars} {a b c : Chars}

/-- the argument behind -U; where there is none, -d is taken for it -/
theorem args_user (h : psqlArgs user dbname port host file = psqlArgs [a] [b] port' host' file') :
    (user ++ ["-d".toList]).head? = some a := by
  cases user with
  | nil => exact congrArg (fun l => l[1]?) h
  | cons x user => exact congrArg (fun l => l[1]?) h

theorem args_dbname (h : psqlArgs [c] dbname port host file = psqlArgs [a] [b] port' host' file') :
    (dbname ++ ["-p".toList]).head? = some b := by
  cases dbname with
  | nil => exact congrArg (fun l => l[3]?) h
  | cons x dbname => exact congrArg (fun l => l[3]?) h

end

section
variable {out : Printed} {u : Uri}

/-- the first call, in a directory without subdirectories -/
theorem first_call_flat (h : CallsRight out u) (halone : out.Alone) {names : List Chars} (hnames : schemeName ∉ names) :
    (parseUrl (echo [uriKey, out.word u])).password = u.password ∧
      psqlArgs (expand plainLocale (flatDir names) (parseUrl (echo [uriKey, out.word u])).user)
          (expand plainLocale (flatDir names) (parseUrl (echo [uriKey, out.word u])).dbname)
          (expand plainLocale (flatDir names) (parseUrl (echo [uriKey, out.word u])).port)
          (expand plainLocale (flatDir names) (parseUrl (echo [uriKey, out.word u])).host) ["Drop_DB.sql".toList] =
        psqlArgs [u.user] [u.dbname] [u.port] [u.host] ["Drop_DB.sql".toList] := by
  have hglob : glob plainLocale (flatDir names) (out.word u) = [out.word u] :=
    glob_word (written u) (tail_cases out) hnames
  refine first_call h halone plainLocale (flatDir names) ?_
  rw [hglob]

/-- the names of the files below have a quote in them where they are the scheme's -/
theorem schemeName_doubled {s : Chars} (h : Ordinary s) : schemeName ∉ [doubled s] := by
  intro hmem
  have hquote : '"' ∈ doubled s := List.mem_singleton.1 hmem ▸ List.mem_cons_self
  exact h.not_mem (by decide) (mem_doubled hquote)

/-- the password is not decoded, and nothing cuts it -/
theorem calls_password (h : CallsRight out u) (halone : out.Alone) : ':' ∉ u.rawPassword ∧ '%' ∉ u.rawPassword := by
  have hparse := parse_password (written u) (tail_cases out)
  have hpassword : upTo ':' u.rawPassword = u.password :=
    hparse.symm.trans (first_call_flat h halone List.not_mem_nil).1
  have hcolon : ':' ∉ u.rawPassword := by
    intro hc
    have hvalue := PercentEncoding.mem_value u.password_encoded (by decide) (by decide) hc
    rw [← hpassword] at hvalue
    exact not_mem_upTo _ _ hvalue
  rw [upTo_whole hcolon] at hpassword
  exact ⟨hcolon, PercentEncoding.not_mem_of_eq u.password_encoded (by decide) hpassword⟩

theorem user_argument (h : CallsRight out u) (halone : out.Alone) {names : List Chars} (hnames : schemeName ∉ names) :
    (expand plainLocale (flatDir names) u.rawUser ++ ["-d".toList]).head? = some u.user := by
  have hcall := (first_call_flat h halone hnames).2
  have huser : (parseUrl (echo [uriKey, out.word u])).user = u.rawUser := parse_user (written u) (tail_cases out)
  rw [huser] at hcall
  exact args_user hcall

/-- nor is the user, and it is no pattern -/
theorem calls_user (h : CallsRight out u) (halone : out.Alone) :
    u.rawUser ≠ [] ∧ '%' ∉ u.rawUser ∧ '*' ∉ u.rawUser := by
  have hordinary : Ordinary u.rawUser := (written u).user
  have hnames : schemeName ∉ ([] : List Chars) := List.not_mem_nil
  have hnone := user_argument h halone hnames
  have hne : u.rawUser ≠ [] := by
    intro he
    have hempty : u.rawUser = u.user := PercentEncoding.raw_eq u.user_encoded (by rw [he]; exact List.not_mem_nil)
    rw [he] at hnone
    rw [← hempty, he] at hnone
    exact absurd hnone (by decide)
  have hraw : u.rawUser = u.user := by
    rw [expand_noFiles hordinary hne] at hnone
    exact Option.some.inj hnone
  refine ⟨hne, PercentEncoding.not_mem_of_eq u.user_encoded (by decide) hraw, ?_⟩
  intro hstar
  have hfile := user_argument h halone (schemeName_doubled hordinary)
  rw [expand_doubled hordinary hstar, ← hraw] at hfile
  exact doubled_ne hstar (Option.some.inj hfile)

theorem dbname_argument (h : CallsRight out u) (halone : out.Alone) {names : List Chars}
    (hnames : schemeName ∉ names) :
    (expand plainLocale (flatDir names) (takenDbname u.rawDbname) ++ ["-p".toList]).head? = some u.dbname := by
  obtain ⟨hne, -, hstar⟩ := calls_user h halone
  have hcall := (first_call_flat h halone hnames).2
  have huser : (parseUrl (echo [uriKey, out.word u])).user = u.rawUser := parse_user (written u) (tail_cases out)
  have hdbname : (parseUrl (echo [uriKey, out.word u])).dbname = takenDbname u.rawDbname :=
    parse_dbname (written u) (tail_cases out) (calls_password h halone).1
  rw [huser, hdbname, expand_plain hne ((written u).user.plain hstar)] at hcall
  exact args_dbname hcall

/-- nor is the database name; nothing is cut off or dropped -/
theorem calls_dbname (h : CallsRight out u) (halone : out.Alone) :
    u.rawDbname ≠ [] ∧ ':' ∉ u.rawDbname ∧ ',' ∉ u.rawDbname ∧ '%' ∉ u.rawDbname ∧ '*' ∉ u.rawDbname := by
  have hwritten : Ordinary u.rawDbname := (written u).dbname
  have hordinary : Ordinary (takenDbname u.rawDbname) := fun c hc => hwritten c (mem_takenDbname hc).1
  have hnames : schemeName ∉ ([] : List Chars) := List.not_mem_nil
  have hnone := dbname_argument h halone hnames
  -- where nothing is taken, -p is the argument
  have hvalue : u.dbname = takenDbname u.rawDbname ∨ takenDbname u.rawDbname = [] ∧ u.dbname = "-p".toList := by
    by_cases hempty : takenDbname u.rawDbname = []
    · rw [hempty] at hnone
      exact Or.inr ⟨hempty, (Option.some.inj hnone).symm⟩
    · rw [expand_noFiles hordinary hempty] at hnone
      exact Or.inl (Option.some.inj hnone).symm
  have hlost : ∀ c, c = ':' ∨ c = ',' → c ∉ u.dbname := by
    intro c hc hmem
    rcases hvalue with he | ⟨-, he⟩
    · rw [he] at hmem
      obtain ⟨-, hcolon, hcomma⟩ := mem_takenDbname hmem
      exact hc.elim hcolon hcomma
    · rw [he] at hmem
      rcases hc with rfl | rfl <;> exact absurd hmem (by decide)
  have hcolon : ':' ∉ u.rawDbname := fun hc =>
    hlost ':' (Or.inl rfl) (PercentEncoding.mem_value u.dbname_encoded (by decide) (by decide) hc)
  have hcomma : ',' ∉ u.rawDbname := fun hc =>
    hlost ',' (Or.inr rfl) (PercentEncoding.mem_value u.dbname_encoded (by decide) (by decide) hc)
  have hwhole : takenDbname u.rawDbname = u.rawDbname := takenDbname_whole hwritten hcolon hcomma
  rw [hwhole] at hvalue
  have hraw : u.rawDbname = u.dbname := by
    rcases hvalue with he | ⟨hempty, -⟩
    · exact he.symm
    · exact PercentEncoding.raw_eq u.dbname_encoded (by rw [hempty]; exact List.not_mem_nil)
  have hne : u.rawDbname ≠ [] := by
    intro hempty
    rw [hwhole, hempty, ← hraw, hempty] at hnone
    exact absurd hnone (by decide)
  refine ⟨hne, hcolon, hcomma, PercentEncoding.not_mem_of_eq u.dbname_encoded (by decide) hraw, ?_⟩
  intro hstar
  have hfile := dbname_argument h halone (schemeName_doubled hwritten)
  rw [hwhole, expand_doubled hwritten hstar, ← hraw] at hfile
  exact doubled_ne hstar (Option.some.inj hfile)

/-- the URI is no pattern either -/
theorem calls_password_star (h : CallsRight out u) (halone : out.Alone) : '*' ∉ u.rawPassword := by
  obtain ⟨hcolon, hpercent⟩ := calls_password h halone
  obtain ⟨-, -, huser⟩ := calls_user h halone
  obtain ⟨-, -, -, -, hdbname⟩ := calls_dbname h halone
  have hw := written u
  intro hstar
  let p : Vars := { u.written with password := doubled u.rawPassword }
  have hp : Written p :=
    { hw with
      password := fun c hc => hw.password c (mem_doubled hc)
      password_at := fun hc => hw.password_at (mem_doubled hc) }
  have hglob : glob plainLocale (uriDir u.written out.tail) (out.word u) = [quotedUri p out.tail] :=
    calc glob plainLocale (uriDir u.written out.tail) (out.word u)
        = [['/'].intercalate [schemeName, [], doubled (addressName u.written), dbName u.written out.tail]] :=
          glob_uriDir hw (tail_cases out) hstar hdbname
      _ = [quotedUri p out.tail] := by rw [path_doubled huser (host_star u) (port_star u)]; rfl
  have hcall := (first_call h halone plainLocale (uriDir u.written out.tail) rfl).1
  have hpassword : upTo ':' (doubled u.rawPassword) = u.password := by
    rw [hglob, parse_password hp (tail_cases out)] at hcall
    exact hcall
  rw [upTo_whole fun hc => hcolon (mem_doubled hc), ← PercentEncoding.raw_eq u.password_encoded hpercent] at hpassword
  exact doubled_ne hstar hpassword

/-- **Where all calls are right, the parts are clean.** -/
theorem calls_clean (h : CallsRight out u) (halone : out.Alone) : Clean u := by
  obtain ⟨hcolon, hpercent⟩ := calls_password h halone
  obtain ⟨hne, huser_percent, huser_star⟩ := calls_user h halone
  obtain ⟨hdb_ne, hdb_colon, hdb_comma, hdb_percent, hdb_star⟩ := calls_dbname h halone
  exact ⟨hne, huser_percent, huser_star, hcolon, hpercent, calls_password_star h halone, hdb_ne, hdb_colon, hdb_comma,
    hdb_percent, hdb_star⟩

end

/-- **Where no other line contains `uri":`, psql gets the parts in every directory iff they are clean.** -/
theorem psql_called_iff (u : Uri) (out : Printed) (halone : out.Alone) : CallsRight out u ↔ Clean u :=
  ⟨fun h => calls_clean h halone, fun h => clean_calls h halone⟩

instance (out : Printed) : Decidable out.Alone :=
  inferInstanceAs (Decidable (∀ l ∈ out.before ++ out.after, ¬ needle <:+: l))

/-- a service key with one member -/
def oneMember : Printed where
  before := [['\x7b']]
  indent := [' ', ' ']
  comma := false
  after := [['\x7d']]
  indent_blank := by simp

/-- postgres://u:p@h:5432/d -/
def plainUri : Uri where
  user := ['u']
  password := ['p']
  host := ['h']
  port := "5432".toList
  dbname := ['d']
  rawUser := ['u']
  rawPassword := ['p']
  rawDbname := ['d']
  user_encoded := .safe rfl .nil
  password_encoded := .safe rfl .nil
  dbname_encoded := .safe rfl .nil
  host_ne := by decide
  host_chars := List.all_eq_true.1 rfl
  port_ne := by decide
  port_digits := List.all_eq_true.1 rfl

theorem plain_uri_called : CallsRight oneMember plainUri := by
  apply (psql_called_iff plainUri oneMember (by decide)).2
  constructor <;> decide

theorem at_sign_escaped : List.Forall₂ PercentEncoding.Spells (String.utf8EncodeChar '@') [('4', '0')] :=
  .cons ⟨rfl, rfl⟩ .nil

/-- postgres://u:p%40ss@h:5432/d, for the password p@ss -/
def atSignUri : Uri :=
  { plainUri with
    password := "p@ss".toList
    rawPassword := "p%40ss".toList
    password_encoded := .safe rfl (.escaped at_sign_escaped (.safe rfl (.safe rfl .nil))) }

theorem at_sign_in_password : ¬ CallsRight oneMember atSignUri := by
  intro h
  have halone : oneMember.Alone := by decide
  exact (calls_password h halone).2 (by decide)

end IconSetup.ExecPsql
