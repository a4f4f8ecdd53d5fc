/-
create_user_provided_service.sh and env.js one after the other: the environment goes into creds.json, from there to the
service env_setup, from what `cf` says of that to the store of env.js, and with the uris to local.json.

- `given_of_plain`: without quotes, backslashes and control characters each variable arrives with its value.
- `traced_run`: whatever the values are, no callback gives the store anything that is neither a uri nor in creds.json.
- `longer_value`: so a value that arrives although it is not plain stands in a longer one.
- `local_json_given_iff`: local.json has the environment, the uris and nothing else iff all values are plain.
-/
import Mathlib.Tactic
import IconSetup.Core.Run
import IconSetup.Cf.CredsJson
import IconSetup.Cf.LocalJson

namespace IconSetup.Environment

open IconSetup.JsonLex IconSetup.JsonText IconSetup.JsonStrings
open IconSetup.JsString IconSetup.JsValue
open IconSetup.CredsJson IconSetup.EnvJs IconSetup.LocalJson

/-! ## From the environment to local.json -/

section
variable (fmt : NumberFormat)

/-- what `cf` answers to env.js: the uris of the services, and for env_setup the credentials that it holds, in any order -/
structure Deployed (exec : Exec) (uris : Service → Units) (creds : Props fmt.Number) : Prop where
  service : ∀ s : Service, ∃ text answer, exec (Callback.service s).command = .stdout text ∧
    credentialsOf fmt text = some answer ∧ EnvJs.member fmt answer uri = some (.str (uris s))
  provided : ∃ text props, exec Callback.ups.command = .stdout text ∧ credentialsOf fmt text = some (.obj props) ∧
    props.Perm creds

/-- local.json is written once, with the uris, with each variable's value in the environment, and nothing else -/
def Given (env : Env) (uris : Service → Units) (st : State fmt.Number) : Prop :=
  ∃ text props, st.written = [text] ∧ jsonParse fmt text = some (.obj props) ∧
    (∀ s : Service, props.lookup s.key = some (.str (uris s))) ∧
    (∀ name ∈ names, props.lookup (ofText name.toList) = some (.str (ofText (env name)))) ∧
    ∀ k, (∀ s : Service, k ≠ s.key) → (∀ name ∈ names, k ≠ ofText name.toList) → props.lookup k = none

end

section
variable {fmt : NumberFormat} {exec : Exec} {strict : Bool} {order : List Callback} {env : Env}
  {uris : Service → Units} {creds : Props fmt.Number}

theorem service_ne_name (s : Service) {name : String} (h : name ∈ names) : s.key ≠ ofText name.toList := by
  intro he
  have hsame : s.name = name.toList := ofText_injective he
  have hfree : ∀ name ∈ names, s.name ≠ name.toList := by cases s <;> decide
  exact hfree name h hsame

theorem proto_ne_name {name : String} (h : name ∈ names) : proto ≠ ofText name.toList := by
  intro he
  have hsame : "__proto__".toList = name.toList := ofText_injective he
  have hfree : ∀ name ∈ names, "__proto__".toList ≠ name.toList := by decide
  exact hfree name h hsame

/-! ## Plain values -/

/-- creds.json as a text with an object, whose properties are in the order in which they were written first -/
theorem file_object (hfile : jsonParse fmt (credsJson env) = some (.obj creds)) :
    ∃ ws members, parse (credsJson env) = some (.obj ws members) ∧ creds = setAll [] (ofMembers fmt members) := by
  obtain ⟨t, ht, he⟩ := Option.map_eq_some_iff.1 hfile
  cases t with
  | obj ws members =>
    rw [ofValue] at he
    exact ⟨ws, members, ht, (Js.obj.inj he).symm⟩
  | _ => simp [ofValue] at he

/-- a property of creds.json as JSON.parse has it is a member of the text -/
theorem mem_file {members : List Member} {p : Units × Js fmt.Number} (h : p ∈ setAll [] (ofMembers fmt members)) :
    ∃ m ∈ members, p = (decode m.1.2.1, ofValue fmt m.2.2.1) := by
  have hmem := (mem_setAll h).resolve_left List.not_mem_nil
  rw [ofMembers_eq] at hmem
  obtain ⟨m, hm, he⟩ := List.mem_map.1 hmem
  exact ⟨m, hm, he.symm⟩

/-- no key twice -/
theorem file_keys (hfile : jsonParse fmt (credsJson env) = some (.obj creds)) : (creds.map Prod.fst).Nodup := by
  cases jsonParse_parsed hfile with
  | obj hordered _ => exact hordered.1

/-- the line of a variable -/
theorem read_member (after : Text) {name : String} (hname : name ∈ names) (hvalue : Plain (env name)) :
    (decode (cstMember env after name).1.2.1, ofValue fmt (cstMember env after name).2.2.1) =
      (ofText name.toList, Js.str (ofText (env name))) := by
  simp only [cstMember, ofValue]
  rw [decode_text (plain_backslash (names_plain name hname)), decode_text (plain_backslash hvalue)]

section
variable (hplain : ∀ name ∈ names, Plain (env name)) (hfile : jsonParse fmt (credsJson env) = some (.obj creds))
include hplain hfile

theorem creds_plain : creds =
    setAll [] (ofMembers fmt (commaNames.map (cstMember env []) ++ [cstMember env ['\n'] "TZ"])) := by
  obtain ⟨ws, members, hparse, hcreds⟩ := file_object hfile
  have hobj : Value.obj [] (commaNames.map (cstMember env []) ++ [cstMember env ['\n'] "TZ"]) = .obj ws members :=
    Option.some.inj ((parse_creds hplain).symm.trans hparse)
  rw [hcreds, (Value.obj.inj hobj).2]

theorem mem_creds_plain {p : Units × Js fmt.Number} (hp : p ∈ creds) :
    ∃ name ∈ names, p = (ofText name.toList, .str (ofText (env name))) := by
  rw [creds_plain hplain hfile] at hp
  obtain ⟨m, hm, rfl⟩ := mem_file hp
  obtain ⟨name, hname, after, -, rfl⟩ := mem_cst hm
  exact ⟨name, hname, read_member after hname (hplain name hname)⟩

theorem lookup_creds_plain {name : String} (hname : name ∈ names) :
    creds.lookup (ofText name.toList) = some (.str (ofText (env name))) := by
  have hsome : creds.lookup (ofText name.toList) ≠ none := by
    obtain ⟨after, hmem⟩ := cst_has env hname
    rw [creds_plain hplain hfile, lookup_setAll_last, List.lookup_nil, Option.or_none, ne_eq, List.lookup_eq_none_iff,
      ofMembers_eq]
    intro hall
    have hline := hall _ (List.mem_reverse.2 (List.mem_map_of_mem hmem))
    rw [read_member after hname (hplain name hname)] at hline
    simp at hline
  obtain ⟨v, hv⟩ := Option.ne_none_iff_exists'.1 hsome
  obtain ⟨name', hname', he⟩ := mem_creds_plain hplain hfile (mem_of_lookup hv)
  obtain ⟨hkey, rfl⟩ := Prod.mk.inj he
  rw [hv, String.toList_inj.1 (ofText_injective hkey)]

theorem answers_plain (hdeployed : Deployed fmt exec uris creds) :
    ∃ props, props.Perm creds ∧ Answers fmt exec uris props := by
  obtain ⟨text, props, hexec, hanswer, hperm⟩ := hdeployed.provided
  refine ⟨props, hperm, ⟨hdeployed.service, ⟨text, hexec, hanswer⟩, fun hmem => ?_, fun s hmem => ?_⟩⟩
  · obtain ⟨p, hp, hkey⟩ := List.mem_map.1 hmem
    obtain ⟨name, hname, rfl⟩ := mem_creds_plain hplain hfile (hperm.mem_iff.1 hp)
    exact proto_ne_name hname hkey.symm
  · obtain ⟨p, hp, hkey⟩ := List.mem_map.1 hmem
    obtain ⟨name, hname, rfl⟩ := mem_creds_plain hplain hfile (hperm.mem_iff.1 hp)
    exact service_ne_name s hname hkey.symm

/-- **Plain values arrive**, in any order of the callbacks. -/
theorem given_of_plain (hdeployed : Deployed fmt exec uris creds) (horder : order.Perm allCallbacks) :
    Given fmt env uris (localJson fmt exec strict order) := by
  obtain ⟨answered, hperm, hanswers⟩ := answers_plain hplain hfile hdeployed
  have hsame : ∀ k, answered.lookup k = creds.lookup k := lookup_perm hperm (file_keys hfile)
  have hholds : Holds fmt uris (writtenProps fmt answered) (localJson fmt exec strict order) :=
    run_holds hanswers horder
  obtain ⟨text, props, hwritten, hparse, huris, hothers⟩ := hholds
  refine ⟨text, props, hwritten, hparse, huris, fun name hname => ?_, fun k hservice hname => ?_⟩
  · rw [hothers _ fun s he => service_ne_name s hname he.symm, lookup_writtenProps, hsame,
      lookup_creds_plain hplain hfile hname, Option.map_some, written]
  · have hnone : creds.lookup k = none := by
      apply lookup_eq_none
      intro hmem
      obtain ⟨p, hp, hkey⟩ := List.mem_map.1 hmem
      obtain ⟨name, hin, rfl⟩ := mem_creds_plain hplain hfile hp
      exact hname name hin hkey.symm
    rw [hothers k hservice, lookup_writtenProps, hsame, hnone, Option.map_none]

end

/-! ## Where the store comes from -/

/-- a property under the name of a service, or one of env_setup -/
def Source (creds : Props fmt.Number) (p : Units × Js fmt.Number) : Prop := (∃ s : Service, p.1 = s.key) ∨ p ∈ creds

structure Traced (creds store : Props fmt.Number) : Prop where
  ordered : Ordered store
  parsed : ∀ p ∈ store, Parsed p.2
  source : ∀ p ∈ store, Source creds p

theorem traced_assign {store : Props fmt.Number} (h : Traced creds store) {key : Units} {value : Js fmt.Number}
    (hvalue : Parsed value) (hsource : Source creds (key, value)) : Traced creds (assign store key value) := by
  unfold assign
  split_ifs
  · exact h
  · refine ⟨set_ordered h.ordered _ _, fun p hp => ?_, fun p hp => ?_⟩
    · rcases mem_set hp with rfl | hp
      · exact hvalue
      · exact h.parsed p hp
    · rcases mem_set hp with rfl | hp
      · exact hsource
      · exact h.source p hp

theorem traced_assignAll {members : Props fmt.Number} (hparsed : ∀ p ∈ members, Parsed p.2)
    (hsource : ∀ p ∈ members, Source creds p) {store : Props fmt.Number} (h : Traced creds store) :
    Traced creds (members.foldl (fun store p => assign store p.1 p.2) store) := by
  induction members generalizing store with
  | nil => exact h
  | cons p members ih =>
    apply ih (fun q hq => hparsed q (List.mem_cons_of_mem p hq)) fun q hq => hsource q (List.mem_cons_of_mem p hq)
    exact traced_assign h (hparsed p List.mem_cons_self) (hsource p List.mem_cons_self)

/-- **A callback adds what comes from its answer**, whatever the keys are. -/
theorem traced_run (hdeployed : Deployed fmt exec uris creds) {store : Props fmt.Number} (h : Traced creds store)
    (c : Callback) {store' : Props fmt.Number} (hrun : c.run fmt exec store = .resolved store') :
    Traced creds store' := by
  cases c with
  | service s =>
    obtain ⟨text, answer, hexec, hanswer, huri⟩ := hdeployed.service s
    have hnull : answer ≠ .null := by
      intro he
      rw [he] at huri
      cases huri
    have hresolves : ∃ value, access answer uri = some value ∧
        parseService fmt exec s.name credentialsName store = .resolved (assign store (ofText s.name) value) :=
      service_answer hexec hanswer hnull (parsed_defined (credentials_parsed hanswer))
    obtain ⟨value, hvalue, hresolved⟩ := hresolves
    rw [access_member huri] at hvalue
    cases hvalue
    rw [Callback.run, hresolved] at hrun
    cases hrun
    exact traced_assign h (.str _) (Or.inl ⟨s, rfl⟩)
  | ups =>
    obtain ⟨text, answered, hexec, hcreds, hperm⟩ := hdeployed.provided
    rw [Callback.run, provided_answer hexec hcreds, enumerate] at hrun
    cases hrun
    have hparsed : ∀ p ∈ answered, Parsed p.2 := by
      cases credentials_parsed hcreds with
      | obj _ hparsed => exact hparsed
    exact traced_assignAll hparsed (fun p hp => Or.inr (hperm.mem_iff.1 hp)) h

/-- the store, and each store that local.json was written from -/
def Kept (creds : Props fmt.Number) (st : State fmt.Number) : Prop :=
  Traced creds st.store ∧ ∀ text ∈ st.written, ∃ store, Traced creds store ∧ text = stringify fmt (.obj store)

theorem kept_step (hdeployed : Deployed fmt exec uris creds) (st : State fmt.Number) (c : Callback)
    (h : Kept creds st) : Kept creds (step fmt exec strict st c) := by
  unfold step
  split_ifs
  · exact h
  · split
    · exact h
    · exact h
    · rename_i store hrun
      have htraced : Traced creds store := traced_run hdeployed h.1 c hrun
      refine ⟨htraced, fun text htext => ?_⟩
      simp only at htext
      split_ifs at htext
      · rcases List.mem_append.1 htext with htext | htext
        · exact h.2 text htext
        · exact ⟨store, htraced, List.mem_singleton.1 htext⟩
      · exact h.2 text htext

/-- **What a string of local.json is under another key than the uris, it is in creds.json**, whatever the values are. -/
theorem written_source (hdeployed : Deployed fmt exec uris creds) {text : Text} {props : Props fmt.Number}
    (hwritten : text ∈ (localJson fmt exec strict order).written) (hparse : jsonParse fmt text = some (.obj props))
    {k u : Units} (hk : ∀ s : Service, k ≠ s.key) (hlookup : props.lookup k = some (.str u)) : (k, .str u) ∈ creds := by
  have hstart : Kept creds (start fmt.Number) := by
    refine ⟨⟨ordered_nil, fun p hp => ?_, fun p hp => ?_⟩, fun text htext => ?_⟩
    · exact absurd hp List.not_mem_nil
    · exact absurd hp List.not_mem_nil
    · exact absurd htext List.not_mem_nil
  have hkept : Kept creds (localJson fmt exec strict order) :=
    Run.run_inv (kept_step hdeployed) (start fmt.Number) order hstart
  obtain ⟨store, htraced, rfl⟩ := hkept.2 text hwritten
  rw [parse_stringify (.obj htraced.ordered htraced.parsed), written, Option.some.injEq, Js.obj.injEq] at hparse
  rw [← hparse, lookup_writtenProps] at hlookup
  obtain ⟨v, hv, hstr⟩ := Option.map_eq_some_iff.1 hlookup
  have hsame : v = .str u := by
    cases v with
    | str s =>
      rw [written] at hstr
      exact hstr
    | num n =>
      rw [written] at hstr
      split_ifs at hstr
    | _ => simp [written] at hstr
  rw [hsame] at hv
  exact (htraced.source _ (mem_of_lookup hv)).resolve_left fun he => he.elim hk

/-! ## Other values -/

/-- a value that arrives although it is not plain is read from a longer string, which stands within another one -/
theorem longer_value (hfile : jsonParse fmt (credsJson env) = some (.obj creds)) {k : Units} {name : String}
    (hmem : (k, Js.str (ofText (env name))) ∈ creds) (hname : ¬ Plain (env name)) :
    ∃ name' ∈ names, ¬ Plain (env name') ∧ (ofText (env name)).length < (ofText (env name')).length := by
  obtain ⟨ws, members, hparse, hcreds⟩ := file_object hfile
  rw [hcreds] at hmem
  obtain ⟨m, hm, he⟩ := mem_file hmem
  obtain ⟨-, hvalue⟩ := Prod.mk.inj he
  obtain ⟨raw, hraw, hdecode⟩ : ∃ raw, m.2.2.1 = .str raw ∧ ofText (env name) = decode raw := by
    cases hv : m.2.2.1 with
    | str raw =>
      rw [hv, ofValue] at hvalue
      exact ⟨raw, rfl, Js.str.inj hvalue⟩
    | _ => simp [hv, ofValue] at hvalue
  have hstring : raw ∈ strings (.obj ws members) := by
    rw [strings, stringsMembers_eq, List.mem_flatMap]
    refine ⟨m, hm, List.mem_cons_of_mem _ ?_⟩
    rw [hraw]
    exact List.mem_singleton_self raw
  have hlegal : LegalStr raw := legal_of_strings (parse_iff.1 hparse).1 raw hstring
  have hslash : '\\' ∈ raw := by
    by_contra hb
    rw [decode_text hb] at hdecode
    rw [ofText_injective hdecode] at hname
    exact hname (plain_of_legalStr hlegal hb)
  obtain ⟨name', hname', hin⟩ := strings_creds (scan_parsed hparse) raw hstring
  rcases hin with rfl | hin
  · exact absurd hslash (plain_backslash (names_plain name' hname'))
  · refine ⟨name', hname', fun hp => plain_backslash hp (hin.subset hslash), ?_⟩
    obtain ⟨before, after, hsplit⟩ := hin
    calc (ofText (env name)).length
      _ = (decode raw).length := by rw [hdecode]
      _ < (ofText raw).length := decode_length_lt hlegal hslash
      _ ≤ (ofText (env name')).length := by
        rw [← hsplit, ofText_append, ofText_append, List.length_append, List.length_append]
        omega

end

/-- where each variable of a kind comes with a longer one, there is none of the kind: one would be the longest -/
theorem none_of_longer {kind : String → Prop} {size : String → ℕ}
    (h : ∀ name ∈ names, kind name → ∃ name' ∈ names, kind name' ∧ size name < size name') :
    ∀ name ∈ names, ¬ kind name := by
  classical
  intro name hname hkind
  have hmem : name ∈ names.toFinset.filter kind := Finset.mem_filter.2 ⟨List.mem_toFinset.2 hname, hkind⟩
  obtain ⟨longest, hlongest, hmax⟩ := Finset.exists_max_image _ size ⟨name, hmem⟩
  obtain ⟨hin, hlong⟩ := Finset.mem_filter.1 hlongest
  obtain ⟨name', hname', hkind', hlonger⟩ := h longest (List.mem_toFinset.1 hin) hlong
  have hle := hmax name' (Finset.mem_filter.2 ⟨List.mem_toFinset.2 hname', hkind'⟩)
  omega

/-- **local.json has the environment iff no value has a quote, a backslash or a control character**, in any order of the
callbacks. Nor has it anything else then than the environment and the uris. -/
theorem local_json_given_iff (fmt : NumberFormat) (exec : Exec) (strict : Bool) (order : List Callback)
    (horder : order.Perm allCallbacks) (env : Env) (uris : Service → Units) (creds : Props fmt.Number)
    (hfile : jsonParse fmt (credsJson env) = some (.obj creds)) (hdeployed : Deployed fmt exec uris creds) :
    Given fmt env uris (localJson fmt exec strict order) ↔ ∀ name ∈ names, Plain (env name) := by
  refine ⟨fun h => ?_, fun hplain => given_of_plain hplain hfile hdeployed horder⟩
  obtain ⟨text, props, hwritten, hparse, -, hvalues, -⟩ := h
  have htext : text ∈ (localJson fmt exec strict order).written := hwritten ▸ List.mem_singleton_self text
  have hlonger : ∀ name ∈ names, ¬ Plain (env name) → ∃ name' ∈ names, ¬ Plain (env name') ∧
      (ofText (env name)).length < (ofText (env name')).length := by
    intro name hname hplain
    have harrived : (ofText name.toList, Js.str (ofText (env name))) ∈ creds :=
      written_source hdeployed htext hparse (fun s he => service_ne_name s hname he.symm) (hvalues name hname)
    exact longer_value hfile harrived hplain
  exact fun name hname => not_not.1 (none_of_longer hlonger name hname)

/-! ## An environment that arrives -/

def plainEnv : Env := fun _ => "value".toList

/-- the answer for env_setup, with the object of creds.json for its credentials -/
def plainAnswer : Value := single "entity".toList (single "credentials".toList (cst plainEnv))

def plainExec : Exec := fun command =>
  if command = userProvidedCommand envSetup then .stdout plainAnswer.text
  else .stdout (exampleAnswer "uri".toList (.str ['u'])).text

def plainCreds : Props literals.Number :=
  setAll [] (ofMembers literals (commaNames.map (cstMember plainEnv []) ++ [cstMember plainEnv ['\n'] "TZ"]))

theorem plainEnv_plain : ∀ name ∈ names, Plain (plainEnv name) := fun _ _ => by unfold plainEnv; decide

theorem plain_deployed : Deployed literals plainExec exampleUris plainCreds where
  service s := by
    have hother : (Callback.service s).command ≠ userProvidedCommand envSetup := by cases s <;> decide
    exact ⟨_, _, if_neg hother, exampleAnswer_credentials (by decide) (.str rfl), rfl⟩
  provided := by
    have hvalid : Valid plainAnswer := single_valid (by decide) (single_valid (by decide) (cst_valid plainEnv_plain))
    refine ⟨plainAnswer.text, plainCreds, if_pos rfl, ?_, List.Perm.refl _⟩
    rw [credentialsOf, entityOf, jsonParse_text hvalid]
    rfl

theorem plain_file : jsonParse literals (credsJson plainEnv) = some (.obj plainCreds) := by
  rw [jsonParse, parse_creds plainEnv_plain, Option.map_some, cst, ofValue, plainCreds]

/-- `value` for each variable, the uri of RabbitMQ first -/
theorem plain_environment_given :
    Given literals plainEnv exampleUris
        (localJson literals plainExec true [.service .rmq, .ups, .service .es, .service .pgl]) ↔
      ∀ name ∈ names, Plain (plainEnv name) :=
  local_json_given_iff literals plainExec true [.service .rmq, .ups, .service .es, .service .pgl] (by decide) plainEnv
    exampleUris plainCreds plain_file plain_deployed

end IconSetup.Environment
