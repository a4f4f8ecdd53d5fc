/-
scripts/create_user_provided_service.sh again and again in one space, with anything done between the runs to the files
and to other instances.

What a run makes of env_setup is decided by three things: whether there is a user-provided env_setup, whether `cf` takes
the words behind `-p` as credentials, and whether something in the table of `cf services` contains the name.

- `holding_run`: what env_setup is after a run, exactly.
- `held_ops`: once it is there, it has the credentials of the last run whose credentials were taken.
- `absent_ops_iff`: where it is not there, it never comes iff each run meets with refused credentials, or with a table
  that has its name in it.
- `absent_then`: from the first run that meets with neither, it has the credentials of the last run that were taken.
- `credentials_follow`: all of these.
-/
import Mathlib.Tactic
import IconSetup.Core.Run
import IconSetup.Core.Shell
import IconSetup.Cf.UserProvidedService

namespace IconSetup.RepeatedRuns

open IconSetup.Run IconSetup.Shell IconSetup.UserProvidedService
open IconSetup.CredsJson (Env)

/-! ## Runs, and what is done between them -/

/-- the service and the credentials of env_setup -/
def holding (space : Space) : Option (Chars × Chars) :=
  (space.instances.find? fun i => i.name = envSetup).map fun i => (i.service, i.credentials)

/-- something else than a run: the files change, other instances come, change and go, env_setup is bound to apps -/
structure Change where
  apply : State → State
  keeps : ∀ s, holding (apply s).space = holding s.space

inductive Op where
  | call (env : Env) (args : List Chars)
  | other (change : Change)

section
variable (loc : ShellLocale) (cf : Cf)

def step (s : State) : Op → State
  | .call env args => (createUserProvidedService loc cf env args s).2
  | .other change => change.apply s

/-- the credentials that `cf` takes from a run -/
def taken (s : State) : Op → Option Chars
  | .call env args => cf.credentials (prepared env args s.fs) (credentialWords loc (prepared env args s.fs) args)
  | .other _ => none

/-- those of the last run from which it takes any -/
def lastTaken (s : State) : List Op → Option Chars
  | [] => none
  | o :: ops => (lastTaken (step loc cf s o) ops).or (taken loc cf s o)

end

/-! ## env_setup -/

section
variable {loc : ShellLocale} {cf : Cf} {s : State}

theorem holding_eq_none {space : Space} : holding space = none ↔ ∀ i ∈ space.instances, i.name ≠ envSetup := by
  rw [holding, Option.map_eq_none_iff, List.find?_eq_none]
  simp

theorem holding_of_mem {space : Space} {i : Instance} (hi : i ∈ space.instances) (hname : i.name = envSetup) :
    holding space = some (i.service, i.credentials) := by
  cases hfind : space.instances.find? fun i => i.name = envSetup with
  | none => exact absurd (decide_eq_true hname) (List.find?_eq_none.1 hfind i hi)
  | some j =>
    have hj : j.name = envSetup := by simpa using List.find?_some hfind
    have hsame : j = i :=
      List.inj_on_of_nodup_map space.nodup (List.mem_of_find?_eq_some hfind) hi (hj.trans hname.symm)
    rw [holding, hfind, hsame]
    rfl

theorem mem_of_holding {space : Space} {service credentials : Chars} (h : holding space = some (service, credentials)) :
    ∃ i ∈ space.instances, i.name = envSetup ∧ i.service = service ∧ i.credentials = credentials := by
  obtain ⟨i, hfind, he⟩ := Option.map_eq_some_iff.1 h
  obtain ⟨rfl, rfl⟩ := Prod.mk.inj he
  exact ⟨i, List.mem_of_find?_eq_some hfind, by simpa using List.find?_some hfind, rfl, rfl⟩

theorem not_named_iff {space : Space} : envSetup ∉ space.names ↔ holding space = none := by
  rw [holding_eq_none, Space.names, List.mem_map]
  simp

theorem user_provided_iff {space : Space} :
    space.Provides envSetup ↔ ∃ c, holding space = some (userProvided, c) := by
  constructor
  · intro h
    obtain ⟨i, hi, hname, hservice⟩ := h
    exact ⟨i.credentials, hservice ▸ holding_of_mem hi hname⟩
  · intro h
    obtain ⟨c, hc⟩ := h
    obtain ⟨i, hi, hname, hservice, -⟩ := mem_of_holding hc
    exact ⟨i, hi, hname, hservice⟩

/-! ## The two commands -/

section
variable {fs : Files} {words : List Chars} {space : Space}

theorem cups_absent (h : holding space = none) :
    holding (cf.cups fs envSetup words space).2 = (cf.credentials fs words).map fun c => (userProvided, c) := by
  obtain ⟨hfailed, hwhy⟩ | ⟨i, c, hname, hservice, rfl, hc, -, -, hadded⟩ := cups_cases cf fs envSetup words space
  · rw [hfailed, h, hwhy.resolve_right (not_named_iff.2 h)]
    rfl
  · have hmade : i ∈ (cf.cups fs envSetup words space).2.instances := by
      rw [hadded]
      exact List.mem_append_right _ (List.mem_singleton_self i)
    rw [holding_of_mem hmade hname, hservice, hc]
    rfl

theorem uups_held {c : Chars} (h : holding space = some (userProvided, c)) :
    holding (cf.uups fs envSetup words space).2 = some (userProvided, (cf.credentials fs words).getD c) := by
  have hthere := user_provided_iff.2 ⟨c, h⟩
  obtain ⟨hfailed, hwhy⟩ | ⟨c', hc, -, hupdated⟩ := uups_cases cf fs envSetup words space
  · rw [hfailed, h, hwhy.resolve_right (not_not.2 hthere)]
    rfl
  · obtain ⟨i, hi, hname, hservice, -⟩ := mem_of_holding h
    have hset : ({ i with credentials := c' } : Instance) ∈ (space.setCredentials envSetup c').instances :=
      List.mem_map.2 ⟨i, hi, if_pos hname⟩
    rw [hupdated, holding_of_mem hset hname, hservice, hc]
    rfl

/-- an instance of that name that is not user-provided is left alone -/
theorem uups_not_held (h : ∀ c, holding space ≠ some (userProvided, c)) :
    (cf.uups fs envSetup words space).2 = space := by
  have hnot : ¬ space.Provides envSetup := by
    rw [user_provided_iff]
    exact fun he => he.elim h
  rw [cf.uups_fails fs envSetup words space (Or.inr hnot)]

end

/-! ## One operation -/

theorem mentions_of_holding {p : Chars × Chars} (h : holding s.space = some p) : Mentions cf s.space := by
  obtain ⟨i, hi, hname, -⟩ := mem_of_holding h
  exact mentions_named hi hname

/-- **A user-provided env_setup gets the credentials that `cf` takes**, and nothing else happens to it. -/
theorem held_step {c : Chars} (h : holding s.space = some (userProvided, c)) (o : Op) :
    holding (step loc cf s o).space = some (userProvided, (taken loc cf s o).getD c) := by
  cases o with
  | call env args =>
    have hfound : subst (grep envSetup (cf.services s.space)) ≠ [] := fun he =>
      (table_mentions cf s.space).1 he (mentions_of_holding h)
    rw [step, run_eq]
    simp only [if_neg hfound]
    exact uups_held h
  | other change =>
    rw [step, change.keeps, h]
    rfl

open Classical in
/-- **Without an env_setup, one is made of what `cf` takes, unless the table has its name in it.** -/
theorem absent_step (h : holding s.space = none) (o : Op) : holding (step loc cf s o).space =
    if Mentions cf s.space then none else (taken loc cf s o).map fun c => (userProvided, c) := by
  cases o with
  | call env args =>
    rw [step, run_eq]
    dsimp only
    by_cases hmentions : Mentions cf s.space
    · have hnot : ∀ c, holding s.space ≠ some (userProvided, c) := fun c he => by
        rw [h] at he
        cases he
      rw [if_neg fun he => (table_mentions cf s.space).1 he hmentions, if_pos hmentions, uups_not_held hnot, h]
    · rw [if_pos ((table_mentions cf s.space).2 hmentions), if_neg hmentions, cups_absent h, taken]
  | other change =>
    rw [step, change.keeps, h]
    split_ifs <;> rfl

/-! ## All operations -/

theorem held_ops {c : Chars} (h : holding s.space = some (userProvided, c)) (ops : List Op) :
    holding (run (step loc cf) s ops).space = some (userProvided, (lastTaken loc cf s ops).getD c) := by
  induction ops generalizing s c with
  | nil => exact h
  | cons o ops ih =>
    rw [run_cons, ih (held_step h o), lastTaken]
    cases lastTaken loc cf (step loc cf s o) ops <;> rfl

/-- the operation makes no env_setup: `cf` takes no credentials from it, or the table has the name in it -/
def Vain (loc : ShellLocale) (cf : Cf) (s : State) (o : Op) : Prop := taken loc cf s o = none ∨ Mentions cf s.space

theorem absent_step_iff (h : holding s.space = none) (o : Op) :
    holding (step loc cf s o).space = none ↔ Vain loc cf s o := by
  rw [absent_step h, Vain]
  split_ifs with hmentions
  · exact iff_of_true rfl (Or.inr hmentions)
  · rw [Option.map_eq_none_iff, or_iff_left hmentions]

/-- **env_setup never comes iff every run is in vain.** -/
theorem absent_ops_iff (h : holding s.space = none) (ops : List Op) :
    holding (run (step loc cf) s ops).space = none ↔ Along (step loc cf) (Vain loc cf) s ops := by
  induction ops generalizing s with
  | nil => exact iff_of_true h trivial
  | cons o ops ih =>
    rw [run_cons, Along, ← absent_step_iff h o]
    by_cases hnext : holding (step loc cf s o).space = none
    · rw [ih hnext, and_iff_right hnext]
    · obtain ⟨p, hp⟩ := Option.ne_none_iff_exists'.1 hnext
      have hmade := hp
      rw [absent_step h] at hmade
      split_ifs at hmade
      -- it comes with this step, and is user-provided from here on
      obtain ⟨c, -, rfl⟩ := Option.map_eq_some_iff.1 hmade
      rw [held_ops hp]
      exact iff_of_false (Option.some_ne_none _) fun hand => hnext hand.1

/-- from the first run that is not in vain, it has the credentials of the last run that was taken -/
theorem absent_then (h : holding s.space = none) {before after : List Op} {o : Op}
    (hvain : Along (step loc cf) (Vain loc cf) s before) (ho : ¬ Vain loc cf (run (step loc cf) s before) o) :
    holding (run (step loc cf) s (before ++ o :: after)).space =
      (lastTaken loc cf (run (step loc cf) s before) (o :: after)).map fun c => (userProvided, c) := by
  have hnone := (absent_ops_iff h before).2 hvain
  rw [run_append, run_cons, lastTaken]
  generalize run (step loc cf) s before = now at ho hnone
  obtain ⟨htaken, hmentions⟩ := not_or.1 ho
  obtain ⟨c, hc⟩ := Option.ne_none_iff_exists'.1 htaken
  have hheld : holding (step loc cf now o).space = some (userProvided, c) := by
    rw [absent_step hnone, if_neg hmentions, hc]
    rfl
  rw [held_ops hheld, hc]
  cases lastTaken loc cf (step loc cf now o) after <;> rfl

/-- an instance of this name that is of another service -/
theorem foreign_step {p : Chars × Chars} (h : holding s.space = some p) (hp : p.1 ≠ userProvided) (o : Op) :
    holding (step loc cf s o).space = some p := by
  cases o with
  | call env args =>
    have hfound : subst (grep envSetup (cf.services s.space)) ≠ [] := fun he =>
      (table_mentions cf s.space).1 he (mentions_of_holding h)
    have hnot : ∀ c, holding s.space ≠ some (userProvided, c) := by
      intro c he
      rw [h] at he
      exact hp (congrArg Prod.fst (Option.some.inj he))
    rw [step, run_eq]
    simp only [if_neg hfound]
    rw [uups_not_held hnot, h]
  | other change => rw [step, change.keeps, h]

end

/-- **The credentials follow the runs.** After any runs, with any changes of files and of other instances between them:
a user-provided env_setup has the credentials of the last run from which `cf` took any. One of another service is as it
was. Where there was none, there is none iff every run was in vain, and from the first that was not, it has the
credentials of the last run again. -/
theorem credentials_follow (loc : ShellLocale) (cf : Cf) (s : State) (ops : List Op) :
    (∀ c, holding s.space = some (userProvided, c) →
      holding (run (step loc cf) s ops).space = some (userProvided, (lastTaken loc cf s ops).getD c)) ∧
    (∀ p, holding s.space = some p → p.1 ≠ userProvided → holding (run (step loc cf) s ops).space = some p) ∧
    (holding s.space = none →
      (holding (run (step loc cf) s ops).space = none ↔ Along (step loc cf) (Vain loc cf) s ops) ∧
      ∀ before o after, ops = before ++ o :: after → Along (step loc cf) (Vain loc cf) s before →
        ¬ Vain loc cf (run (step loc cf) s before) o → holding (run (step loc cf) s ops).space =
          (lastTaken loc cf (run (step loc cf) s before) (o :: after)).map fun c => (userProvided, c)) := by
  refine ⟨fun c h => held_ops h ops, fun p h hp => ?_, fun h => ⟨absent_ops_iff h ops, ?_⟩⟩
  · exact run_inv (P := fun s => holding s.space = some p) (fun s o hs => foreign_step hs hp o) s ops h
  · intro before o after he hvain ho
    rw [he]
    exact absent_then h hvain ho

/-! ## Two runs -/

def fileArgs : List Chars := ["-f".toList, "a.json".toList]

/-- no instances, and the file that is given -/
def fileState : State := ⟨⟨[], [(["a.json".toList], .file ['1'])]⟩, ⟨[], List.nodup_nil⟩⟩

/-- the file is written anew -/
def rewritten : Change where
  apply s := { s with fs := s.fs.write ["a.json".toList] ['2'] }
  keeps _ := rfl

theorem fileArgs_given : given fileArgs = some "a.json".toList := by
  simp [given, fileArgs, getopts]

theorem taken_file (env : Env) (s : State) : taken plainLocale fileCf s (.call env fileArgs) =
    fileCf.credentials s.fs ["a.json".toList] := by
  have hprepared : prepared env fileArgs s.fs = s.fs := prepared_same (Or.inl (by rw [fileArgs_given]; rfl))
  have hwords : expand plainLocale s.fs "a.json".toList = ["a.json".toList] :=
    expand_plain (by decide) (List.all_eq_true.1 (by decide))
  rw [taken, hprepared, credentialWords, fileArgs_given, Option.getD_some, hwords]

/-- created with what the file has at first, and updated with what it has then -/
theorem credentials_follow_file (env : Env) :
    holding (run (step plainLocale fileCf) fileState
      [.call env fileArgs, .other rewritten, .call env fileArgs]).space = some (userProvided, ['2']) := by
  have hvain : ¬ Vain plainLocale fileCf fileState (.call env fileArgs) := by
    have hfirst : taken plainLocale fileCf fileState (.call env fileArgs) = some ['1'] := taken_file env fileState
    have hfree : ¬ Mentions fileCf fileState.space := (table_mentions _ _).1 (by decide)
    rw [Vain, hfirst]
    exact not_or.2 ⟨Option.some_ne_none _, hfree⟩
  have hsame : (step plainLocale fileCf fileState (.call env fileArgs)).fs = fileState.fs := by
    rw [step, run_files]
    exact prepared_same (Or.inl (by rw [fileArgs_given]; rfl))
  have hsecond : taken plainLocale fileCf
      (step plainLocale fileCf (step plainLocale fileCf fileState (.call env fileArgs)) (.other rewritten))
      (.call env fileArgs) = some ['2'] := by
    have hfiles : (step plainLocale fileCf (step plainLocale fileCf fileState (.call env fileArgs))
        (.other rewritten)).fs = fileState.fs.write ["a.json".toList] ['2'] := by
      rw [← hsame]
      rfl
    rw [taken_file, hfiles]
    rfl
  have hafter := ((credentials_follow plainLocale fileCf fileState
    [.call env fileArgs, .other rewritten, .call env fileArgs]).2.2 rfl).2 [] (.call env fileArgs)
    [.other rewritten, .call env fileArgs] rfl trivial hvain
  rw [hafter, run_nil, lastTaken, lastTaken, lastTaken, hsecond]
  rfl

end IconSetup.RepeatedRuns
