/-
scripts/create_user_provided_service.sh as a whole: what it does to the service instances of the space and to the disk,
from any state of both, for any arguments and any environment.

Whether env_setup exists is decided by a search for these characters in everything that `cf services` prints, so that
another instance, a plan, a bound app or the name of the org can make it look as if it did; `cf uups` then fails. The
test before the last `rm` is on the word HASFILE, not on the variable, so the file with the secrets is never deleted.
`cf` is a parameter with what its help says of the three commands (`Cf`); what it takes as credentials is left open: a
function of the files and of the words behind `-p`.

- `table_mentions`: where the search finds something.
- `secrets_left`: without -f, creds.json stays on the disk, with the value of every variable.
- `others_alone`: no run touches another instance.
- `service_right_iff`: when a run does what it is for.
-/
import Mathlib.Tactic
import IconSetup.Core.Shell
import IconSetup.Cf.CredsJson

namespace IconSetup.UserProvidedService

open IconSetup.Shell
open IconSetup.CredsJson (Env lines credsJson)

/-! ## cf -/

structure Instance where
  name : Chars
  service : Chars
  plan : Chars
  boundApps : List Chars
  /-- the columns of the table behind the bound apps -/
  others : List Chars
  credentials : Chars

/-- the service instances of a space; no two have the same name -/
structure Space where
  instances : List Instance
  nodup : (instances.map fun i => i.name).Nodup

def columns (i : Instance) : List Chars :=
  i.name :: i.service :: i.plan :: [',', ' '].intercalate i.boundApps :: i.others

/-- a row of a table: the columns in order, with blanks between them -/
inductive Row : List Chars → Chars → Prop
  | last (c : Chars) (n : ℕ) : Row [c] (c ++ List.replicate n ' ')
  | cons (c : Chars) (n : ℕ) {cols : List Chars} {line : Chars} :
    Row cols line → Row (c :: cols) (c ++ List.replicate (n + 1) ' ' ++ line)

inductive Reply where
  | created
  | updated
  | failed
deriving DecidableEq, Repr

def userProvided : Chars := "user-provided".toList

def Space.setCredentials (space : Space) (name credentials : Chars) : Space where
  instances := space.instances.map fun i => if i.name = name then { i with credentials := credentials } else i
  nodup := by
    have hnames : (space.instances.map fun i => if i.name = name then { i with credentials := credentials } else i).map
        (fun i => i.name) = space.instances.map fun i => i.name := by
      rw [List.map_map]
      refine List.map_congr_left fun i _ => ?_
      simp only [Function.comp_apply]
      split_ifs <;> rfl
    rw [hnames]
    exact space.nodup

def Space.names (space : Space) : List Chars := space.instances.map fun i => i.name

/-- there is a user-provided instance of the name -/
def Space.Provides (space : Space) (name : Chars) : Prop :=
  ∃ i ∈ space.instances, i.name = name ∧ i.service = userProvided

structure Cf where
  /-- the lines that `cf services` prints above its table, with the org, the space and the user -/
  notice : List Chars
  titles : List Chars
  services : Space → List Chars
  /-- what is taken from the words behind `-p`, none where they are refused -/
  credentials : Files → List Chars → Option Chars
  /-- `cf cups name -p words` -/
  cups : Files → Chars → List Chars → Space → Reply × Space
  /-- `cf uups name -p words` -/
  uups : Files → Chars → List Chars → Space → Reply × Space
  /-- `cf services` prints a row for each instance, under the titles -/
  services_rows : ∀ space, ∃ (rows : List Chars) (is : List Instance), services space = notice ++ rows ∧
    is.Perm space.instances ∧ List.Forall₂ Row (titles :: is.map columns) rows
  /-- `cf cups` makes a user-provided instance where the name is free, and nothing else -/
  cups_new : ∀ fs name words space c, credentials fs words = some c → name ∉ space.names →
    ∃ i : Instance, i.name = name ∧ i.service = userProvided ∧ i.credentials = c ∧
      (cups fs name words space).1 = .created ∧ (cups fs name words space).2.instances = space.instances ++ [i]
  cups_fails : ∀ fs name words space, credentials fs words = none ∨ name ∈ space.names →
    cups fs name words space = (.failed, space)
  /-- `cf uups` gives a user-provided instance its new credentials, and does nothing else -/
  uups_found : ∀ fs name words space c, credentials fs words = some c → space.Provides name →
    uups fs name words space = (.updated, space.setCredentials name c)
  uups_fails : ∀ fs name words space, credentials fs words = none ∨ ¬ space.Provides name →
    uups fs name words space = (.failed, space)

/-! ## The script -/

structure State where
  fs : Files
  space : Space

/-- `getopts "f:"`: the values of -f, in order; the first argument is what is left of a group of options -/
def getopts : Chars → List Chars → List Chars
  | c :: cs, args =>
    if c = 'f' then
      if cs ≠ [] then cs :: getopts [] args
      else
        match args with
        | [] => []
        | v :: args => v :: getopts [] args
    else getopts cs args
  | [], [] => []
  | [], a :: args =>
    match a with
    | '-' :: c :: cs => if c = '-' ∧ cs = [] then [] else getopts (c :: cs) args
    | _ => []
termination_by group args => (args.length, group.length)

/-- the file that is given with -f -/
def given (args : List Chars) : Option Chars := (getopts [] args).getLast?

def credsName : Chars := "creds.json".toList

def envSetup : Chars := "env_setup".toList

/-- `rm words` -/
def rm (fs : Files) (words : List Chars) : Files := words.foldl (fun fs word => fs.remove (fs.path word)) fs

/-- the lines of creds.json, the first with `>`, the others with `>>` -/
def writeCreds (env : Env) (fs : Files) : Files :=
  match lines env with
  | [] => fs
  | l :: ls => ls.foldl (fun fs l => fs.append (fs.path credsName) l) (fs.write (fs.path credsName) l)

def createUserProvidedService (loc : ShellLocale) (cf : Cf) (env : Env) (args : List Chars) (s : State) :
    Reply × State :=
  let file := (given args).getD credsName
  let hasFile := if (given args).isSome then ['1'] else []
  let fs :=
    if testZ (expand loc s.fs hasFile) then
      writeCreds env (if testF s.fs (expand loc s.fs file) then rm s.fs (expand loc s.fs file) else s.fs)
    else s.fs
  let ups := subst (grep envSetup (cf.services s.space))
  let words := expand loc fs file
  let r := if ups = [] then cf.cups fs envSetup words s.space else cf.uups fs envSetup words s.space
  -- the test is on the word HASFILE, which is not empty
  let cleaned := if testZ ["HASFILE".toList] then rm fs (expand loc fs file) else fs
  (r.1, ⟨cleaned, r.2⟩)

/-! ## What the table mentions -/

/-- something that `cf services` prints contains the characters env_setup -/
def Mentions (cf : Cf) (space : Space) : Prop :=
  (∃ l ∈ cf.notice, envSetup <:+: l) ∨ (∃ title ∈ cf.titles, envSetup <:+: title) ∨
    ∃ i ∈ space.instances, envSetup <:+: i.name ∨ envSetup <:+: i.service ∨ envSetup <:+: i.plan ∨
      (∃ app ∈ i.boundApps, envSetup <:+: app) ∨ ∃ c ∈ i.others, envSetup <:+: c

theorem envSetup_ne_nil : envSetup ≠ [] := by decide

theorem infix_row {cols : List Chars} {line : Chars} (h : Row cols line) :
    envSetup <:+: line ↔ ∃ c ∈ cols, envSetup <:+: c := by
  have hblank : ∀ n, ∀ b ∈ List.replicate n ' ', b ∉ envSetup := by
    intro n b hb
    rw [List.eq_of_mem_replicate hb]
    decide
  induction h with
  | last c n =>
    cases n with
    | zero => simp
    | succ n =>
      have hsep := infix_seps envSetup_ne_nil (hblank (n + 1)) (by simp) c []
      rw [List.append_nil, List.infix_nil, or_iff_left envSetup_ne_nil] at hsep
      simpa using hsep
  | @cons c n cols line _ ih =>
    have hsep := infix_seps envSetup_ne_nil (hblank (n + 1)) (by simp) c line
    rw [hsep, List.exists_mem_cons_iff]
    exact or_congr_right ih

theorem infix_columns (i : Instance) : (∃ c ∈ columns i, envSetup <:+: c) ↔
    envSetup <:+: i.name ∨ envSetup <:+: i.service ∨ envSetup <:+: i.plan ∨
      (∃ app ∈ i.boundApps, envSetup <:+: app) ∨ ∃ c ∈ i.others, envSetup <:+: c := by
  have hsep : ∀ c ∈ [',', ' '], c ∉ envSetup :=
    List.forall_mem_cons.2 ⟨by decide, List.forall_mem_singleton.2 (by decide)⟩
  rw [← infix_intercalate envSetup_ne_nil hsep (List.cons_ne_nil _ _) i.boundApps]
  simp [columns]

theorem infix_rows {cells : List (List Chars)} {rows : List Chars} (h : List.Forall₂ Row cells rows) :
    (∃ l ∈ rows, envSetup <:+: l) ↔ ∃ cols ∈ cells, ∃ c ∈ cols, envSetup <:+: c := by
  induction h with
  | nil => simp
  | cons hrow _ ih => rw [List.exists_mem_cons_iff, List.exists_mem_cons_iff, infix_row hrow, ih]

/-- **The search finds something iff a name, a service, a plan, a bound app or the text around the table contains the
characters.** -/
theorem table_mentions (cf : Cf) (space : Space) :
    subst (grep envSetup (cf.services space)) = [] ↔ ¬ Mentions cf space := by
  have hletter : 'e' ∈ envSetup := by decide
  obtain ⟨rows, is, hprinted, hperm, hrows⟩ := cf.services_rows space
  have hsides : (∃ l ∈ cf.services space, envSetup <:+: l) ↔
      (∃ l ∈ cf.notice, envSetup <:+: l) ∨ ∃ l ∈ rows, envSetup <:+: l := by
    simp only [hprinted, List.mem_append, or_and_right, exists_or]
  have hcells : (∃ cols ∈ is.map columns, ∃ c ∈ cols, envSetup <:+: c) ↔
      ∃ i ∈ space.instances, ∃ c ∈ columns i, envSetup <:+: c := by
    simp only [List.mem_map, exists_exists_and_eq_and, hperm.mem_iff]
  have hfound : (∃ l ∈ cf.services space, envSetup <:+: l) ↔ Mentions cf space := by
    rw [hsides, infix_rows hrows]
    simp only [List.mem_cons, or_and_right, exists_or, exists_eq_left, hcells, infix_columns, Mentions]
  rw [subst_grep hletter (by decide), ← hfound]
  push Not
  exact Iff.rfl

/-- an instance with the name is found by the search -/
theorem mentions_named {cf : Cf} {space : Space} {i : Instance} (hi : i ∈ space.instances) (hname : i.name = envSetup) :
    Mentions cf space :=
  Or.inr (Or.inr ⟨i, hi, Or.inl (hname ▸ List.infix_rfl)⟩)

/-! ## The commands -/

/-- the two commands leave instances with other names as they are -/
def SameOthers (name : Chars) (before after : Space) : Prop :=
  ∀ i, i.name ≠ name → (i ∈ after.instances ↔ i ∈ before.instances)

section
variable (cf : Cf) (fs : Files) (name : Chars) (words : List Chars) (space : Space)

/-- `cf cups` fails, or adds an instance -/
theorem cups_cases : cf.cups fs name words space = (.failed, space) ∧
      (cf.credentials fs words = none ∨ name ∈ space.names) ∨
    ∃ i c, i.name = name ∧ i.service = userProvided ∧ i.credentials = c ∧ cf.credentials fs words = some c ∧
      name ∉ space.names ∧ (cf.cups fs name words space).1 = .created ∧
      (cf.cups fs name words space).2.instances = space.instances ++ [i] := by
  by_cases hfails : cf.credentials fs words = none ∨ name ∈ space.names
  · exact Or.inl ⟨cf.cups_fails fs name words space hfails, hfails⟩
  · obtain ⟨hsome, hfree⟩ := not_or.1 hfails
    obtain ⟨c, hc⟩ := Option.ne_none_iff_exists'.1 hsome
    obtain ⟨i, hname, hservice, hcredentials, hcreated, hadded⟩ := cf.cups_new fs name words space c hc hfree
    exact Or.inr ⟨i, c, hname, hservice, hcredentials, hc, hfree, hcreated, hadded⟩

/-- `cf uups` fails, or sets credentials -/
theorem uups_cases : cf.uups fs name words space = (.failed, space) ∧
      (cf.credentials fs words = none ∨ ¬ space.Provides name) ∨
    ∃ c, cf.credentials fs words = some c ∧ space.Provides name ∧
      cf.uups fs name words space = (.updated, space.setCredentials name c) := by
  by_cases hfails : cf.credentials fs words = none ∨ ¬ space.Provides name
  · exact Or.inl ⟨cf.uups_fails fs name words space hfails, hfails⟩
  · obtain ⟨hsome, hfound⟩ := not_or.1 hfails
    obtain ⟨c, hc⟩ := Option.ne_none_iff_exists'.1 hsome
    exact Or.inr ⟨c, hc, not_not.1 hfound, cf.uups_found fs name words space c hc (not_not.1 hfound)⟩

variable {cf fs name words space}

theorem mem_setCredentials {c : Chars} {i : Instance} (hi : i.name ≠ name) :
    i ∈ (space.setCredentials name c).instances ↔ i ∈ space.instances := by
  rw [Space.setCredentials, List.mem_map]
  constructor
  · intro hmem
    obtain ⟨j, hj, he⟩ := hmem
    split_ifs at he with hname
    · exact absurd (he ▸ hname) hi
    · exact he ▸ hj
  · intro hmem
    exact ⟨i, hmem, if_neg hi⟩

theorem cups_others : SameOthers name space (cf.cups fs name words space).2 := by
  intro i hi
  obtain ⟨hfailed, -⟩ | ⟨j, c, hname, -, -, -, -, -, hadded⟩ := cups_cases cf fs name words space
  · rw [hfailed]
  · rw [hadded, List.mem_append, List.mem_singleton]
    refine or_iff_left ?_
    rintro rfl
    exact hi hname

theorem uups_others : SameOthers name space (cf.uups fs name words space).2 := by
  intro i hi
  obtain ⟨hfailed, -⟩ | ⟨c, -, -, hupdated⟩ := uups_cases cf fs name words space
  · rw [hfailed]
  · rw [hupdated, mem_setCredentials hi]

theorem cups_created : (cf.cups fs name words space).1 = .created ↔
    (cf.credentials fs words).isSome ∧ name ∉ space.names := by
  obtain ⟨hfailed, hwhy⟩ | ⟨j, c, -, -, -, hc, hfree, hcreated, -⟩ := cups_cases cf fs name words space
  · rw [hfailed, Option.isSome_iff_ne_none]
    refine iff_of_false (fun h => by cases h) fun h => ?_
    exact hwhy.elim h.1 h.2
  · rw [hc]
    exact iff_of_true hcreated ⟨rfl, hfree⟩

theorem uups_updated : (cf.uups fs name words space).1 = .updated ↔
    (cf.credentials fs words).isSome ∧ space.Provides name := by
  obtain ⟨hfailed, hwhy⟩ | ⟨c, hc, hfound, hupdated⟩ := uups_cases cf fs name words space
  · rw [hfailed, Option.isSome_iff_ne_none]
    refine iff_of_false (fun h => by cases h) fun h => ?_
    exact hwhy.elim h.1 fun hnot => hnot h.2
  · rw [hc, hupdated]
    exact iff_of_true rfl ⟨rfl, hfound⟩

theorem uups_not_created : (cf.uups fs name words space).1 ≠ .created := by
  obtain ⟨hfailed, -⟩ | ⟨c, -, -, hupdated⟩ := uups_cases cf fs name words space
  · rw [hfailed]
    exact fun h => by cases h
  · rw [hupdated]
    exact fun h => by cases h

/-- an instance of the name has the credentials that `cf` takes -/
def Space.Carries (space : Space) (name : Chars) (credentials : Option Chars) : Prop :=
  ∃ i ∈ space.instances, i.name = name ∧ credentials = some i.credentials

/-- a command that does not fail gives them to it -/
theorem cups_carries (h : (cf.cups fs name words space).1 ≠ .failed) :
    (cf.cups fs name words space).2.Carries name (cf.credentials fs words) := by
  obtain ⟨hfailed, -⟩ | ⟨j, c, hname, -, rfl, hc, -, -, hadded⟩ := cups_cases cf fs name words space
  · exact absurd (by rw [hfailed]) h
  · refine ⟨j, ?_, hname, hc⟩
    rw [hadded]
    exact List.mem_append_right _ (List.mem_singleton_self j)

theorem uups_carries (h : (cf.uups fs name words space).1 ≠ .failed) :
    (cf.uups fs name words space).2.Carries name (cf.credentials fs words) := by
  obtain ⟨hfailed, -⟩ | ⟨c, hc, ⟨i, hi, hname, -⟩, hupdated⟩ := uups_cases cf fs name words space
  · exact absurd (by rw [hfailed]) h
  · rw [hupdated]
    exact ⟨{ i with credentials := c }, List.mem_map.2 ⟨i, hi, if_pos hname⟩, hname, hc⟩

end

/-! ## The disk -/

theorem expand_creds (loc : ShellLocale) (fs : Files) : expand loc fs credsName = [credsName] :=
  expand_plain (by decide) (List.all_eq_true.1 (by decide))

/-- the test on $HASFILE is on the variable -/
theorem testZ_hasFile (loc : ShellLocale) (fs : Files) (args : List Chars) :
    testZ (expand loc fs (if (given args).isSome then ['1'] else [])) = (given args).isNone := by
  cases given args with
  | none => rfl
  | some f =>
    have hone : expand loc fs ['1'] = [['1']] := expand_plain (by decide) (List.all_eq_true.1 (by decide))
    rw [Option.isSome_some, if_pos rfl, hone]
    rfl

theorem path_write (fs : Files) (p : Path) (content s : Chars) : (fs.write p content).path s = fs.path s := by
  unfold Files.write
  split_ifs <;> rfl

theorem path_remove (fs : Files) (p : Path) (s : Chars) : (fs.remove p).path s = fs.path s := by
  unfold Files.remove
  split <;> rfl

theorem path_append (fs : Files) (p : Path) (content s : Chars) : (fs.append p content).path s = fs.path s := by
  unfold Files.append
  split <;> exact path_write _ _ _ _

/-- lines behind those that are in the file already -/
theorem append_lines {fs : Files} {old : Chars} (hfile : fs.at (fs.path credsName) = some (.file old))
    (ls : List Chars) : (ls.foldl (fun fs l => fs.append (fs.path credsName) l) fs).at (fs.path credsName) =
      some (.file (old ++ ls.flatten)) := by
  induction ls generalizing fs old with
  | nil => rw [List.foldl_nil, List.flatten_nil, List.append_nil, hfile]
  | cons l ls ih =>
    have hpath := path_append fs (fs.path credsName) l credsName
    have hnext : (fs.append (fs.path credsName) l).at ((fs.append (fs.path credsName) l).path credsName) =
        some (.file (old ++ l)) := by rw [hpath, at_append hfile]
    have hrest := ih hnext
    rw [hpath] at hrest
    rw [List.foldl_cons, hrest, List.flatten_cons, List.append_assoc]

/-- **The file is written as a whole**, whatever was in it. -/
theorem writeCreds_at {fs : Files} (hdir : fs.at (fs.path credsName) ≠ some .dir) (env : Env) :
    (writeCreds env fs).at (fs.path credsName) = some (.file (credsJson env)) := by
  have hpath := path_write fs (fs.path credsName) (CredsJson.echo ['\x7b']) credsName
  have hfirst : (fs.write (fs.path credsName) (CredsJson.echo ['\x7b'])).at
      ((fs.write (fs.path credsName) (CredsJson.echo ['\x7b'])).path credsName) =
        some (.file (CredsJson.echo ['\x7b'])) := by rw [hpath, at_write hdir]
  have hall := append_lines hfirst (lines env).tail
  rw [hpath] at hall
  exact hall

/-- where the name is a directory, nothing is written -/
theorem writeCreds_dir {fs : Files} (hdir : fs.at (fs.path credsName) = some .dir) (env : Env) :
    writeCreds env fs = fs := by
  have hlines : ∀ ls : List Chars, ls.foldl (fun fs l => fs.append (fs.path credsName) l) fs = fs := by
    intro ls
    induction ls with
    | nil => rfl
    | cons l ls ih => rw [List.foldl_cons, append_dir hdir, ih]
  have hwrite : writeCreds env fs = (lines env).tail.foldl (fun fs l => fs.append (fs.path credsName) l)
      (fs.write (fs.path credsName) (CredsJson.echo ['\x7b'])) := rfl
  rw [hwrite, write_dir hdir, hlines]

/-! ## Runs -/

/-- the files when `cf` is called -/
def prepared (env : Env) (args : List Chars) (fs : Files) : Files :=
  if (given args).isSome then fs
  else writeCreds env (if testF fs [credsName] then rm fs [credsName] else fs)

/-- the words behind `-p` -/
def credentialWords (loc : ShellLocale) (fs : Files) (args : List Chars) : List Chars :=
  expand loc fs ((given args).getD credsName)

theorem run_eq (loc : ShellLocale) (cf : Cf) (env : Env) (args : List Chars) (s : State) :
    createUserProvidedService loc cf env args s =
      let fs := prepared env args s.fs
      let words := credentialWords loc fs args
      let r := if subst (grep envSetup (cf.services s.space)) = [] then cf.cups fs envSetup words s.space
        else cf.uups fs envSetup words s.space
      (r.1, ⟨fs, r.2⟩) := by
  have hfs : (if testZ (expand loc s.fs (if (given args).isSome then ['1'] else [])) then
      writeCreds env (if testF s.fs (expand loc s.fs ((given args).getD credsName)) then
        rm s.fs (expand loc s.fs ((given args).getD credsName)) else s.fs)
      else s.fs) = prepared env args s.fs := by
    rw [testZ_hasFile, prepared]
    cases given args with
    | none => rw [Option.getD_none, expand_creds]; rfl
    | some f => rfl
  have hword : testZ ["HASFILE".toList] = false := by decide
  simp only [createUserProvidedService, hfs, hword]
  rfl

/-- **No run touches another instance.** -/
theorem others_alone (loc : ShellLocale) (cf : Cf) (env : Env) (args : List Chars) (s : State) :
    SameOthers envSetup s.space (createUserProvidedService loc cf env args s).2.space := by
  rw [run_eq]
  dsimp only
  split_ifs
  · exact cups_others
  · exact uups_others

/-- what the run does to the files -/
theorem run_files (loc : ShellLocale) (cf : Cf) (env : Env) (args : List Chars) (s : State) :
    (createUserProvidedService loc cf env args s).2.fs = prepared env args s.fs := by
  rw [run_eq]

/-- **Without -f, the secrets stay on the disk**: creds.json is there afterwards, with the value of every variable. -/
theorem secrets_left {args : List Chars} (hgiven : given args = none) {s : State}
    (hdir : s.fs.at (s.fs.path credsName) ≠ some .dir) (loc : ShellLocale) (cf : Cf) (env : Env) :
    (createUserProvidedService loc cf env args s).2.fs.at (s.fs.path credsName) = some (.file (credsJson env)) := by
  have hremoved : ∀ fs', fs' = s.fs ∨ fs' = s.fs.remove (s.fs.path credsName) →
      fs'.path credsName = s.fs.path credsName ∧ fs'.at (s.fs.path credsName) ≠ some .dir := by
    intro fs' hfs'
    rcases hfs' with rfl | rfl
    · exact ⟨rfl, hdir⟩
    · exact ⟨path_remove _ _ _, at_remove_ne_dir hdir⟩
  obtain ⟨hpath, hkept⟩ := hremoved (if testF s.fs [credsName] then rm s.fs [credsName] else s.fs) (by
    split_ifs
    · exact Or.inr rfl
    · exact Or.inl rfl)
  have hwritten := writeCreds_at (hpath.symm ▸ hkept) env
  rw [hpath] at hwritten
  rw [run_files, prepared, hgiven]
  exact hwritten

/-- the files are as they were with -f, or where creds.json is a directory -/
theorem prepared_same {env : Env} {args : List Chars} {fs : Files}
    (h : (given args).isSome ∨ fs.at (fs.path credsName) = some .dir) : prepared env args fs = fs := by
  unfold prepared
  split_ifs with hgiven htest
  · rfl
  · have hdir := h.resolve_left hgiven
    simp [testF, hdir] at htest
  · exact writeCreds_dir (h.resolve_left hgiven) env

/-! ## What a run is for -/

/-- the name of the instance is taken -/
def Named (space : Space) : Prop := ∃ i ∈ space.instances, i.name = envSetup

instance (space : Space) : Decidable (Named space) := by unfold Named; infer_instance

/-- env_setup is created, or updated where it exists, with the credentials behind `-p`; other instances are as they were;
without -f there is no creds.json, and with it the file that was given is as it was -/
structure Right (loc : ShellLocale) (cf : Cf) (env : Env) (args : List Chars) (before : State) (reply : Reply)
    (after : State) : Prop where
  reply : reply = if Named before.space then .updated else .created
  credentials : after.space.Carries envSetup
    (cf.credentials (prepared env args before.fs) (credentialWords loc (prepared env args before.fs) args))
  others : SameOthers envSetup before.space after.space
  noSecrets : given args = none → ∀ content, after.fs.at (before.fs.path credsName) ≠ some (.file content)
  givenKept : ∀ file, given args = some file → after.fs.at (before.fs.path file) = before.fs.at (before.fs.path file)

/-- the reply to the command of the run -/
theorem reply_iff (loc : ShellLocale) (cf : Cf) (env : Env) (args : List Chars) (s : State) :
    (createUserProvidedService loc cf env args s).1 = (if Named s.space then Reply.updated else .created) ↔
      (cf.credentials (prepared env args s.fs) (credentialWords loc (prepared env args s.fs) args)).isSome ∧
        (s.space.Provides envSetup ∨ ¬ Mentions cf s.space) := by
  rw [run_eq]
  dsimp only
  by_cases hmentions : Mentions cf s.space
  · rw [if_neg fun h => (table_mentions cf s.space).1 h hmentions]
    by_cases hnamed : Named s.space
    · rw [if_pos hnamed, uups_updated, or_iff_left (not_not.2 hmentions)]
    · rw [if_neg hnamed, iff_false_intro uups_not_created, false_iff]
      intro h
      obtain ⟨i, hi, hname, -⟩ := h.2.resolve_right (not_not.2 hmentions)
      exact hnamed ⟨i, hi, hname⟩
  · have hfree : envSetup ∉ s.space.names := fun h => by
      obtain ⟨i, hi, hname⟩ := List.mem_map.1 h
      exact hmentions (mentions_named hi hname)
    have hnamed : ¬ Named s.space := fun h => hfree (List.mem_map.2 h)
    rw [if_pos ((table_mentions cf s.space).2 hmentions), if_neg hnamed, cups_created, and_iff_left hfree,
      and_iff_left (Or.inr hmentions)]

/-- a run that does not fail leaves the credentials there -/
theorem carries_after {loc : ShellLocale} {cf : Cf} {env : Env} {args : List Chars} {s : State}
    (h : (createUserProvidedService loc cf env args s).1 ≠ .failed) :
    (createUserProvidedService loc cf env args s).2.space.Carries envSetup
      (cf.credentials (prepared env args s.fs) (credentialWords loc (prepared env args s.fs) args)) := by
  rw [run_eq] at h ⊢
  dsimp only at h ⊢
  split_ifs at h ⊢ with hnone
  · exact cups_carries h
  · exact uups_carries h

/-- **When a run does what it is for**: it is run with -f (or creds.json is a directory, so that nothing is written),
`cf` takes the words that the unquoted file name stands for as credentials, and there is a user-provided env_setup, or
nothing that `cf services` prints contains its name. -/
theorem service_right_iff (loc : ShellLocale) (cf : Cf) (env : Env) (args : List Chars) (before : State) :
    Right loc cf env args before (createUserProvidedService loc cf env args before).1
        (createUserProvidedService loc cf env args before).2 ↔
      ((given args).isSome ∨ before.fs.at (before.fs.path credsName) = some .dir) ∧
        (cf.credentials before.fs (credentialWords loc before.fs args)).isSome ∧
        (before.space.Provides envSetup ∨ ¬ Mentions cf before.space) := by
  have hreply := reply_iff loc cf env args before
  constructor
  · intro h
    have hsame : (given args).isSome ∨ before.fs.at (before.fs.path credsName) = some .dir := by
      by_contra hnot
      obtain ⟨hgiven, hdir⟩ := not_or.1 hnot
      have hnone : given args = none := by simpa using hgiven
      exact h.noSecrets hnone _ (secrets_left hnone hdir loc cf env)
    rw [prepared_same hsame] at hreply
    exact ⟨hsame, hreply.1 h.reply⟩
  · intro h
    obtain ⟨hsame, hrest⟩ := h
    rw [prepared_same hsame] at hreply
    have hfiles : (createUserProvidedService loc cf env args before).2.fs = before.fs := by
      rw [run_files, prepared_same hsame]
    have hdone := hreply.2 hrest
    refine ⟨hdone, carries_after ?_, others_alone loc cf env args before, ?_, ?_⟩
    · rw [hdone]
      split_ifs <;> exact fun he => by cases he
    · intro hnone content
      have hdir := hsame.resolve_left (by simp [hnone])
      rw [hfiles, hdir]
      exact fun he => by cases he
    · intro file _
      rw [hfiles]

/-! ## A run without -f -/

def width (rows : List (List Chars)) (k : ℕ) : ℕ := (rows.map fun cols => (cols.getD k []).length).foldr max 0

/-- each column is filled up with blanks -/
def rowFrom (width : ℕ → ℕ) : ℕ → Chars → List Chars → Chars
  | k, c, [] => c ++ List.replicate (width k - c.length) ' '
  | k, c, d :: cols => c ++ List.replicate (width k - c.length + 2 + 1) ' ' ++ rowFrom width (k + 1) d cols

theorem rowFrom_row (width : ℕ → ℕ) (k : ℕ) (c : Chars) (cols : List Chars) :
    Row (c :: cols) (rowFrom width k c cols) := by
  induction cols generalizing k c with
  | nil => exact .last c _
  | cons d cols ih => exact .cons c _ (ih (k + 1) d)

def fileTitles : List Chars := ["service".toList, "plan".toList, "bound apps".toList]

def fileRows (space : Space) : List (Chars × List Chars) :=
  ("name".toList, fileTitles) :: space.instances.map fun i => (i.name, (columns i).tail)

def fileServices (notice : List Chars) (space : Space) : List Chars :=
  notice ++ (fileRows space).map fun r => rowFrom (width ((fileRows space).map fun r => r.1 :: r.2)) 0 r.1 r.2

/-- reads the file that is named -/
def fileCredentials : Files → List Chars → Option Chars
  | fs, [word] =>
    match fs.at (fs.path word) with
    | some (.file content) => some content
    | _ => none
  | _, _ => none

def Space.add (space : Space) (i : Instance) (h : i.name ∉ space.names) : Space where
  instances := space.instances ++ [i]
  nodup := by
    rw [List.map_append, List.map_singleton, List.nodup_append_comm, List.singleton_append]
    exact List.nodup_cons.2 ⟨h, space.nodup⟩

def fileCups (fs : Files) (name : Chars) (words : List Chars) (space : Space) : Reply × Space :=
  match fileCredentials fs words with
  | none => (.failed, space)
  | some credentials =>
    if h : space.names.contains name then (.failed, space)
    else
      (.created,
        space.add ⟨name, userProvided, [], [], [], credentials⟩ fun hmem => h (List.contains_iff_mem.2 hmem))

instance (space : Space) (name : Chars) : Decidable (space.Provides name) := by unfold Space.Provides; infer_instance

def fileUups (fs : Files) (name : Chars) (words : List Chars) (space : Space) : Reply × Space :=
  match fileCredentials fs words with
  | none => (.failed, space)
  | some credentials =>
    if space.Provides name then (.updated, space.setCredentials name credentials) else (.failed, space)

def fileCf : Cf where
  notice := ["Getting services in org test / space dev".toList]
  titles := "name".toList :: fileTitles
  services := fileServices ["Getting services in org test / space dev".toList]
  credentials := fileCredentials
  cups := fileCups
  uups := fileUups
  services_rows space := by
    refine ⟨_, space.instances, rfl, List.Perm.refl _, ?_⟩
    have hcells : ("name".toList :: fileTitles) :: space.instances.map columns =
        (fileRows space).map fun r => r.1 :: r.2 := by
      rw [fileRows, List.map_cons, List.map_map]
      rfl
    rw [hcells, List.forall₂_map_left_iff, List.forall₂_map_right_iff, List.forall₂_same]
    exact fun r _ => rowFrom_row _ 0 r.1 r.2
  cups_new fs name words space c hc hfree := by
    refine ⟨⟨name, userProvided, [], [], [], c⟩, rfl, rfl, rfl, ?_⟩
    simp [fileCups, hc, hfree, Space.add]
  cups_fails fs name words space h := by
    unfold fileCups
    rcases h with h | h
    · rw [h]
    · cases fileCredentials fs words with
      | none => rfl
      | some c => exact dif_pos (List.contains_iff_mem.2 h)
  uups_found fs name words space c hc hfound := by
    unfold fileUups
    rw [hc]
    exact if_pos hfound
  uups_fails fs name words space h := by
    unfold fileUups
    rcases h with h | h
    · rw [h]
    · cases fileCredentials fs words with
      | none => rfl
      | some c => exact if_neg h

/-- another instance, named my_env_setup, and no files -/
def otherState : State where
  fs := ⟨[], []⟩
  space := ⟨[⟨"my_env_setup".toList, userProvided, [], [], [], []⟩], by decide⟩

theorem secrets_left_on_disk : ¬ Right plainLocale fileCf (fun _ => ['x']) [] otherState
    (createUserProvidedService plainLocale fileCf (fun _ => ['x']) [] otherState).1
    (createUserProvidedService plainLocale fileCf (fun _ => ['x']) [] otherState).2 := by
  intro h
  have hgiven : given [] = none := by simp [given, getopts]
  have hdir : otherState.fs.at (otherState.fs.path credsName) ≠ some .dir := by decide
  exact h.noSecrets hgiven _ (secrets_left hgiven hdir plainLocale fileCf _)

end IconSetup.UserProvidedService
