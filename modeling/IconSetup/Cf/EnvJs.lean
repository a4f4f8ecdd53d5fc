/-
scripts/env.js: parseService and parseUserProvidedService, up to the end of the callback of `exec`.

A callback that throws settles nothing: JSON.parse throws on what is no JSON, and so does an access to a property of
null or undefined. Only the access to `uri` makes parseService notice that there are no credentials, and only by
throwing; parseUserProvidedService does not notice it, since a loop over undefined has no turns.

- `service_answer`, `provided_answer`: what the callbacks do with an answer that has credentials.
- `service_throws`: without credentials parseService throws.
- `settled_right_iff`: when the promises are settled as they should be.
-/
import Mathlib.Tactic
import IconSetup.Core.JsValue

namespace IconSetup.EnvJs

open IconSetup.JsonLex (Text isNumber)
open IconSetup.JsString IconSetup.JsValue

/-! ## The script -/

/-- what a command ends with -/
inductive Outcome where
  | error (e : Text)
  | stdout (text : Text)
deriving DecidableEq, Repr

/-- the outcome of each command line -/
abbrev Exec := Text → Outcome

/-- how the callback of a command ends: what its promise is resolved with is the store itself -/
inductive Ended (Number : Type) where
  | resolved (store : Props Number)
  | rejected (e : Text)
  | threw

def entity : Units := ofText "entity".toList

def credentials : Units := ofText "credentials".toList

def uri : Units := ofText "uri".toList

def proto : Units := ofText "__proto__".toList

section
variable {Number : Type}

/-- `store[key] = value`; the key `__proto__` would not become a property -/
def assign (store : Props Number) (key : Units) (value : Js Number) : Props Number :=
  if key = proto then store else set store key value

def serviceKeyCommand (serviceName credentialsName : Text) : Text :=
  "cf curl -X GET /v2/service_keys/$(cf service-key ".toList ++ serviceName ++ ' ' :: credentialsName ++
    " --guid)".toList

def userProvidedCommand (serviceName : Text) : Text :=
  "cf curl -X GET /v2/user_provided_service_instances/$(cf service ".toList ++ serviceName ++ " --guid)".toList

end

section
variable (fmt : NumberFormat) (exec : Exec)

/-- the callback of parseService -/
def parseService (serviceName credentialsName : Text) (store : Props fmt.Number) : Ended fmt.Number :=
  match exec (serviceKeyCommand serviceName credentialsName) with
  | .error e => .rejected e
  | .stdout text =>
    match (((jsonParse fmt text).bind fun v => access v entity).bind fun v => access v credentials).bind
        fun v => access v uri with
    | none => .threw
    | some value => .resolved (assign store (ofText serviceName) value)

/-- the callback of parseUserProvidedService -/
def parseUserProvidedService (serviceName : Text) (store : Props fmt.Number) : Ended fmt.Number :=
  match exec (userProvidedCommand serviceName) with
  | .error e => .rejected e
  | .stdout text =>
    match ((jsonParse fmt text).bind fun v => access v entity).bind fun v => access v credentials with
    | none => .threw
    | some creds => .resolved ((enumerate creds).foldl (fun store p => assign store p.1 p.2) store)

/-! ## What the steps should do -/

/-- a property of its own -/
def member (v : Js fmt.Number) (key : Units) : Option (Js fmt.Number) :=
  match v with
  | .obj props => props.lookup key
  | _ => none

/-- the entity in an answer -/
def entityOf (text : Text) : Option (Js fmt.Number) := (jsonParse fmt text).bind fun v => member fmt v entity

/-- the credentials in an answer: JSON with an entity that has credentials -/
def credentialsOf (text : Text) : Option (Js fmt.Number) := (entityOf fmt text).bind fun v => member fmt v credentials

/-- the command succeeded and the credentials are there -/
def Succeeds (outcome : Outcome) : Prop := ∃ text, outcome = .stdout text ∧ (credentialsOf fmt text).isSome

/-- the promise is resolved where the step succeeds and rejected elsewhere, and nothing is thrown -/
structure Right (outcome : Outcome) (ended : Ended fmt.Number) : Prop where
  resolves : (∃ store, ended = .resolved store) ↔ Succeeds fmt outcome
  rejects : (∃ e, ended = .rejected e) ↔ ¬ Succeeds fmt outcome
  quiet : ended ≠ .threw

/-! ## Property access -/

variable {fmt}

theorem access_member {v w : Js fmt.Number} {key : Units} (h : member fmt v key = some w) : access v key = some w := by
  cases v with
  | obj props =>
    have hlookup : props.lookup key = some w := h
    rw [access, hlookup, Option.getD_some]
  | _ => cases h

/-- a property that is not there: undefined, or the access throws -/
theorem access_missing {v : Js fmt.Number} {key : Units} (h : member fmt v key = none) :
    access v key = none ∨ access v key = some .undefined := by
  cases v with
  | obj props =>
    have hlookup : props.lookup key = none := h
    rw [access, hlookup, Option.getD_none]
    exact Or.inr rfl
  | undefined => exact Or.inl rfl
  | null => exact Or.inl rfl
  | _ => exact Or.inr rfl

/-- the access of the scripts finds the credentials that are there -/
theorem access_credentials {text : Text} {creds : Js fmt.Number} (h : credentialsOf fmt text = some creds) :
    (((jsonParse fmt text).bind fun v => access v entity).bind fun v => access v credentials) = some creds := by
  obtain ⟨e, he, hcreds⟩ := Option.bind_eq_some_iff.1 h
  obtain ⟨v, hv, hentity⟩ := Option.bind_eq_some_iff.1 he
  rw [hv, Option.bind_some, access_member hentity, Option.bind_some, access_member hcreds]

/-- where there are none, it throws or finds undefined -/
theorem access_no_credentials {text : Text} (h : credentialsOf fmt text = none) :
    (((jsonParse fmt text).bind fun v => access v entity).bind fun v => access v credentials) = none ∨
      (((jsonParse fmt text).bind fun v => access v entity).bind fun v => access v credentials) = some .undefined := by
  cases hparse : jsonParse fmt text with
  | none => exact Or.inl rfl
  | some v =>
    rw [Option.bind_some]
    cases hentity : member fmt v entity with
    | none =>
      rcases access_missing hentity with he | he
      · rw [he]
        exact Or.inl rfl
      · rw [he]
        exact Or.inl rfl
    | some e =>
      have hnone : member fmt e credentials = none := by
        rwa [credentialsOf, entityOf, hparse, Option.bind_some, hentity, Option.bind_some] at h
      rw [access_member hentity, Option.bind_some]
      exact access_missing hnone

/-! ## The callbacks -/

section
variable {exec} {serviceName credentialsName text e : Text} {store : Props fmt.Number} {creds : Js fmt.Number}

theorem service_error (h : exec (serviceKeyCommand serviceName credentialsName) = .error e) :
    parseService fmt exec serviceName credentialsName store = .rejected e := by
  rw [parseService, h]

theorem provided_error (h : exec (userProvidedCommand serviceName) = .error e) :
    parseUserProvidedService fmt exec serviceName store = .rejected e := by
  rw [parseUserProvidedService, h]

/-- **Credentials that are not null give the uri of a service.** -/
theorem service_answer (h : exec (serviceKeyCommand serviceName credentialsName) = .stdout text)
    (hcreds : credentialsOf fmt text = some creds) (hnull : creds ≠ .null) (hdefined : creds ≠ .undefined) :
    ∃ value, access creds uri = some value ∧ parseService fmt exec serviceName credentialsName store =
      .resolved (assign store (ofText serviceName) value) := by
  have hvalue : ∃ value, access creds uri = some value := by
    cases creds with
    | undefined => exact absurd rfl hdefined
    | null => exact absurd rfl hnull
    | _ => exact ⟨_, rfl⟩
  obtain ⟨value, hvalue⟩ := hvalue
  refine ⟨value, hvalue, ?_⟩
  rw [parseService, h]
  simp only [access_credentials hcreds, Option.bind_some, hvalue]

/-- without credentials, or with null for them, parseService throws -/
theorem service_throws (h : exec (serviceKeyCommand serviceName credentialsName) = .stdout text)
    (hcreds : credentialsOf fmt text = none ∨ credentialsOf fmt text = some .null) :
    parseService fmt exec serviceName credentialsName store = .threw := by
  have hnone : ((((jsonParse fmt text).bind fun v => access v entity).bind fun v => access v credentials).bind
      fun v => access v uri) = none := by
    rcases hcreds with hcreds | hcreds
    · rcases access_no_credentials hcreds with he | he <;> rw [he] <;> rfl
    · rw [access_credentials hcreds]
      rfl
  rw [parseService, h]
  simp only [hnone]

/-- without an entity, or with null for it, parseUserProvidedService throws -/
theorem provided_throws (h : exec (userProvidedCommand serviceName) = .stdout text)
    (hentity : entityOf fmt text = none ∨ entityOf fmt text = some .null) :
    parseUserProvidedService fmt exec serviceName store = .threw := by
  have hnone : (((jsonParse fmt text).bind fun v => access v entity).bind fun v => access v credentials) = none := by
    cases hparse : jsonParse fmt text with
    | none => rfl
    | some v =>
      simp only [entityOf, hparse, Option.bind_some] at hentity ⊢
      rcases hentity with hentity | hentity
      · rcases access_missing hentity with he | he <;> rw [he] <;> rfl
      · rw [access_member hentity]
        rfl
  rw [parseUserProvidedService, h]
  simp only [hnone]

/-- **Credentials are copied to the store**, whatever they are. -/
theorem provided_answer (h : exec (userProvidedCommand serviceName) = .stdout text)
    (hcreds : credentialsOf fmt text = some creds) : parseUserProvidedService fmt exec serviceName store =
      .resolved ((enumerate creds).foldl (fun store p => assign store p.1 p.2) store) := by
  rw [parseUserProvidedService, h]
  simp only [access_credentials hcreds]

/-- an answer is never rejected -/
theorem provided_not_rejected (h : exec (userProvidedCommand serviceName) = .stdout text) (e : Text) :
    parseUserProvidedService fmt exec serviceName store ≠ .rejected e := by
  rw [parseUserProvidedService, h]
  simp only
  split <;> exact fun he => by cases he

end

/-! ## Settled as they should be -/

theorem member_parsed {v w : Js fmt.Number} {key : Units} (hv : Parsed v) (h : member fmt v key = some w) :
    Parsed w := by
  cases hv with
  | obj hordered hparsed =>
    obtain ⟨before, after, rfl, -⟩ := List.lookup_eq_some_iff.1 h
    exact hparsed (key, w) (by simp)
  | _ => cases h

theorem credentials_parsed {text : Text} {creds : Js fmt.Number} (h : credentialsOf fmt text = some creds) :
    Parsed creds := by
  obtain ⟨e, he, hcreds⟩ := Option.bind_eq_some_iff.1 h
  obtain ⟨v, hv, hentity⟩ := Option.bind_eq_some_iff.1 he
  exact member_parsed (member_parsed (jsonParse_parsed hv) hentity) hcreds

theorem not_succeeds_error {e : Text} : ¬ Succeeds fmt (.error e) := by
  rintro ⟨text, he, -⟩
  cases he

theorem succeeds_stdout {text : Text} : Succeeds fmt (.stdout text) ↔ (credentialsOf fmt text).isSome := by
  refine ⟨fun h => ?_, fun h => ⟨text, rfl, h⟩⟩
  obtain ⟨text', he, hcreds⟩ := h
  cases he
  exact hcreds

theorem right_error (e e' : Text) : Right fmt (.error e) (.rejected e') where
  resolves := iff_of_false (fun ⟨_, h⟩ => by cases h) not_succeeds_error
  rejects := iff_of_true ⟨e', rfl⟩ not_succeeds_error
  quiet := fun h => by cases h

theorem right_resolved {outcome : Outcome} {store : Props fmt.Number} (h : Succeeds fmt outcome) :
    Right fmt outcome (.resolved store) where
  resolves := iff_of_true ⟨store, rfl⟩ h
  rejects := iff_of_false (fun ⟨_, he⟩ => by cases he) (not_not.2 h)
  quiet := fun he => by cases he

/-- the condition under which parseService settles its promise as it should -/
def Readable (fmt : NumberFormat) : Outcome → Prop
  | .error _ => True
  | .stdout text => ∃ creds, credentialsOf fmt text = some creds ∧ creds ≠ .null

/-- the condition for parseUserProvidedService -/
def Listed (fmt : NumberFormat) : Outcome → Prop
  | .error _ => True
  | .stdout text => (credentialsOf fmt text).isSome

theorem parseService_right_iff (exec : Exec) (serviceName credentialsName : Text) (store : Props fmt.Number) :
    Right fmt (exec (serviceKeyCommand serviceName credentialsName))
        (parseService fmt exec serviceName credentialsName store) ↔
      Readable fmt (exec (serviceKeyCommand serviceName credentialsName)) := by
  cases h : exec (serviceKeyCommand serviceName credentialsName) with
  | error e =>
    rw [service_error h]
    exact iff_of_true (right_error e e) trivial
  | stdout text =>
    refine ⟨fun hright => ?_, fun hreadable => ?_⟩
    · cases hcreds : credentialsOf fmt text with
      | none => exact absurd (service_throws h (Or.inl hcreds)) hright.quiet
      | some creds =>
        refine ⟨creds, hcreds, ?_⟩
        rintro rfl
        exact hright.quiet (service_throws h (Or.inr hcreds))
    · obtain ⟨creds, hcreds, hnull⟩ := hreadable
      obtain ⟨value, -, hresolved⟩ := service_answer h hcreds hnull (parsed_defined (credentials_parsed hcreds))
      rw [hresolved]
      exact right_resolved ⟨text, rfl, Option.isSome_iff_exists.2 ⟨creds, hcreds⟩⟩

theorem parseUserProvided_right_iff (exec : Exec) (serviceName : Text) (store : Props fmt.Number) :
    Right fmt (exec (userProvidedCommand serviceName)) (parseUserProvidedService fmt exec serviceName store) ↔
      Listed fmt (exec (userProvidedCommand serviceName)) := by
  cases h : exec (userProvidedCommand serviceName) with
  | error e =>
    rw [provided_error h]
    exact iff_of_true (right_error e e) trivial
  | stdout text =>
    refine ⟨fun hright => ?_, fun hlisted => ?_⟩
    · by_contra hnone
      obtain ⟨e, he⟩ := hright.rejects.2 (succeeds_stdout.not.2 hnone)
      exact provided_not_rejected h e he
    · obtain ⟨creds, hcreds⟩ := Option.isSome_iff_exists.1 hlisted
      rw [provided_answer h hcreds]
      exact right_resolved ⟨text, rfl, hlisted⟩

/-- **The promises are settled as they should be iff the command failed or its answer has credentials**, for
parseService credentials that are not null. -/
theorem settled_right_iff (fmt : NumberFormat) (exec : Exec) (serviceName credentialsName : Text)
    (store : Props fmt.Number) :
    (Right fmt (exec (serviceKeyCommand serviceName credentialsName))
          (parseService fmt exec serviceName credentialsName store) ↔
        Readable fmt (exec (serviceKeyCommand serviceName credentialsName))) ∧
      (Right fmt (exec (userProvidedCommand serviceName)) (parseUserProvidedService fmt exec serviceName store) ↔
        Listed fmt (exec (userProvidedCommand serviceName))) :=
  ⟨parseService_right_iff exec serviceName credentialsName store, parseUserProvided_right_iff exec serviceName store⟩

end

/-! ## An answer without an entity -/

/-- the exponent of a literal is above that of the largest double -/
def far (lit : Text) : Bool := 308 < ((lit.dropWhile fun c => c ≠ 'e').tail.foldl (fun n c => 10 * n + (c.toNat - 48)) 0)

/-- a format for examples: numbers are their literals, and those that are far are infinite -/
def literals : NumberFormat where
  Number := Option Text
  read lit := if far lit then none else some lit
  write n := n.filter fun lit => isNumber lit && !far lit
  write_number h := by
    obtain ⟨-, hlit⟩ := Option.filter_eq_some_iff.1 h
    exact (Bool.and_eq_true_iff.1 hlit).1
  read_write h := by
    obtain ⟨hn, hlit⟩ := Option.filter_eq_some_iff.1 h
    rw [Bool.and_eq_true_iff, Bool.not_eq_true'] at hlit
    rw [if_neg (Bool.eq_false_iff.1 hlit.2), hn]

/-- the answer is an empty object: both callbacks throw -/
theorem empty_object_throws :
    ¬ Right literals (.stdout ['\x7b', '\x7d']) (parseService literals (fun _ => .stdout ['\x7b', '\x7d'])
        "icon-postgresql".toList "Credentials-1".toList []) ∧
      ¬ Right literals (.stdout ['\x7b', '\x7d']) (parseUserProvidedService literals
        (fun _ => .stdout ['\x7b', '\x7d']) "env_setup".toList []) :=
  ⟨fun h => h.quiet rfl, fun h => h.quiet rfl⟩

end IconSetup.EnvJs
