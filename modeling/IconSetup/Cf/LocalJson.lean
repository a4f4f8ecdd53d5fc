/-
scripts/env.js as a whole: the callbacks of the four commands run in any order, each writes to the one store, and
local.json is written from the store when the last promise is resolved.

- `run_inv`: after any of the callbacks, the store holds what these have to give and nothing else.
- `run_unwritten`: where a step fails, local.json is not written, whenever the step's callback runs.
- `local_json_any_order`: local.json does not depend on the order. Values stand in it as they were read, except that a
  number beyond the doubles, which is read as infinite, is written as null.
- `infinite_number_lost`: such a number.
-/
import Mathlib.Tactic
import IconSetup.Core.Run
import IconSetup.Cf.EnvJs

namespace IconSetup.LocalJson

open IconSetup.Run
open IconSetup.JsonLex (Text LegalStr nil_blank)
open IconSetup.JsonText (Value Valid valid_obj)
open IconSetup.JsString IconSetup.JsValue IconSetup.EnvJs

/-! ## The event loop -/

inductive Service where
  | es
  | pgl
  | rmq
deriving DecidableEq, Repr

def Service.name : Service → Text
  | .es => "icon-elasticsearch".toList
  | .pgl => "icon-postgresql".toList
  | .rmq => "icon-rabbitmq".toList

/-- the key of a service in the store -/
def Service.key (s : Service) : Units := ofText s.name

inductive Callback where
  | service (s : Service)
  | ups
deriving DecidableEq, Repr

/-- the promises that Promise.all waits for -/
def allCallbacks : List Callback := [.service .es, .service .pgl, .service .rmq, .ups]

theorem mem_allCallbacks (c : Callback) : c ∈ allCallbacks := by
  cases c with
  | service s => cases s <;> decide
  | ups => decide

def credentialsName : Text := "Credentials-1".toList

def envSetup : Text := "env_setup".toList

inductive Promise where
  | pending
  | resolved
  | rejected
deriving DecidableEq, Repr

structure State (Number : Type) where
  store : Props Number
  promises : Callback → Promise
  /-- the process has ended on an exception -/
  crashed : Bool
  /-- what local.json was written with -/
  written : List Text

def start (Number : Type) : State Number := ⟨[], fun _ => .pending, false, []⟩

section
variable (fmt : NumberFormat) (exec : Exec)

/-- the line that a callback belongs to -/
def Callback.command : Callback → Text
  | .service s => serviceKeyCommand s.name credentialsName
  | .ups => userProvidedCommand envSetup

def Callback.run (c : Callback) (store : Props fmt.Number) : Ended fmt.Number :=
  match c with
  | .service s => parseService fmt exec s.name credentialsName store
  | .ups => parseUserProvidedService fmt exec envSetup store

/-- one callback, and what waits for its promise. Nobody handles the rejection that Promise.all passes on: `strict` says
whether the process ends on it -/
def step (strict : Bool) (st : State fmt.Number) (c : Callback) : State fmt.Number :=
  if st.crashed = true ∨ st.promises c ≠ .pending then st
  else
    match c.run fmt exec st.store with
    | .threw => { st with crashed := true }
    | .rejected _ => { st with promises := Function.update st.promises c .rejected, crashed := strict }
    | .resolved store =>
      let promises := Function.update st.promises c .resolved
      -- the fourth result is the store, as it is when all four are there
      let written :=
        if ∀ c ∈ allCallbacks, promises c = .resolved then st.written ++ [stringify fmt (.obj store)] else st.written
      { st with store := store, promises := promises, written := written }

/-- the callbacks run in this order -/
def localJson (strict : Bool) (order : List Callback) : State fmt.Number :=
  run (step fmt exec strict) (start fmt.Number) order

/-! ## What local.json should be -/

/-- all four commands give good answers: uris for the services, and credentials with keys of their own -/
structure Answers (uris : Service → Units) (creds : Props fmt.Number) : Prop where
  service : ∀ s : Service, ∃ text answer, exec (Callback.service s).command = .stdout text ∧
    credentialsOf fmt text = some answer ∧ member fmt answer uri = some (.str (uris s))
  provided : ∃ text, exec Callback.ups.command = .stdout text ∧ credentialsOf fmt text = some (.obj creds)
  proto_free : proto ∉ creds.map Prod.fst
  keys_free : ∀ s : Service, s.key ∉ creds.map Prod.fst

/-- the command of the step ends with an error, or prints no JSON or JSON without an entity, or one that is null; for a
service, without credentials that are not null -/
def Fails (c : Callback) : Prop :=
  match exec c.command with
  | .error _ => True
  | .stdout text =>
    match c with
    | .service _ => credentialsOf fmt text = none ∨ credentialsOf fmt text = some .null
    | .ups => entityOf fmt text = none ∨ entityOf fmt text = some .null

/-- local.json is written once, with the uris under the names, these properties, and nothing else -/
def Holds (uris : Service → Units) (creds : Props fmt.Number) (st : State fmt.Number) : Prop :=
  ∃ text props, st.written = [text] ∧ jsonParse fmt text = some (.obj props) ∧
    (∀ s : Service, props.lookup s.key = some (.str (uris s))) ∧
    ∀ k, (∀ s : Service, k ≠ s.key) → props.lookup k = creds.lookup k

/-! ## A step that fails -/

section
variable {fmt exec} {strict : Bool} {order : List Callback}

/-- **The callback of a step that fails does not resolve its promise**, whatever the store is. -/
theorem fails_unresolved {c : Callback} (h : Fails fmt exec c) (store store' : Props fmt.Number) :
    c.run fmt exec store ≠ .resolved store' := by
  intro he
  unfold Fails at h
  cases c with
  | service s =>
    rw [Callback.run] at he
    cases houtcome : exec (Callback.service s).command with
    | error e =>
      rw [service_error houtcome] at he
      cases he
    | stdout text =>
      rw [houtcome] at h
      rw [service_throws houtcome h] at he
      cases he
  | ups =>
    rw [Callback.run] at he
    cases houtcome : exec Callback.ups.command with
    | error e =>
      rw [provided_error houtcome] at he
      cases he
    | stdout text =>
      rw [houtcome] at h
      rw [provided_throws houtcome h] at he
      cases he

/-- the failing promise stays unresolved, and nothing is written without it -/
theorem step_unwritten {c : Callback} (h : Fails fmt exec c) (st : State fmt.Number) (d : Callback)
    (hst : st.promises c ≠ .resolved ∧ st.written = []) :
    (step fmt exec strict st d).promises c ≠ .resolved ∧ (step fmt exec strict st d).written = [] := by
  have hupdate : ∀ p, p ≠ .resolved → Function.update st.promises d p c ≠ .resolved := by
    intro p hp
    by_cases hc : c = d
    · rw [hc, Function.update_self]
      exact hp
    · rw [Function.update_of_ne hc]
      exact hst.1
  unfold step
  split_ifs
  · exact hst
  · split
    · exact hst
    · exact ⟨hupdate _ (by decide), hst.2⟩
    · rename_i store hresolved
      have hne : c ≠ d := fun he => fails_unresolved h st.store store (he ▸ hresolved)
      have hopen : Function.update st.promises d .resolved c ≠ .resolved := by
        rw [Function.update_of_ne hne]
        exact hst.1
      refine ⟨hopen, ?_⟩
      simp only
      rw [if_neg fun hall => hopen (hall c (mem_allCallbacks c))]
      exact hst.2

/-- **Where a step fails, local.json is not written**, in any order. -/
theorem run_unwritten {c : Callback} (h : Fails fmt exec c) : (localJson fmt exec strict order).written = [] := by
  have hstart : (start fmt.Number).promises c ≠ .resolved ∧ (start fmt.Number).written = [] := ⟨by simp [start], rfl⟩
  exact (Run.run_inv (step_unwritten h) (start fmt.Number) order hstart).2

/-! ## A callback that does not fail -/

theorem key_injective {s t : Service} (h : s.key = t.key) : s = t := by
  cases s <;> cases t <;> first | rfl | exact absurd h (by decide)

theorem key_ne_proto (s : Service) : s.key ≠ proto := by
  cases s <;> decide

section
variable {uris : Service → Units} {creds : Props fmt.Number}

/-- the credentials of env_setup are as JSON.parse makes them -/
theorem creds_parsed (h : Answers fmt exec uris creds) : Parsed (.obj creds) := by
  obtain ⟨text, -, hcreds⟩ := h.provided
  exact credentials_parsed hcreds

theorem service_resolves (h : Answers fmt exec uris creds) (s : Service) (store : Props fmt.Number) :
    (Callback.service s).run fmt exec store = .resolved (set store s.key (.str (uris s))) := by
  obtain ⟨text, answer, hexec, hanswer, huri⟩ := h.service s
  have haccess := access_member huri
  have hnull : answer ≠ .null := by
    rintro rfl
    cases huri
  have hresolves : ∃ value, access answer uri = some value ∧
      parseService fmt exec s.name credentialsName store = .resolved (assign store (ofText s.name) value) :=
    service_answer hexec hanswer hnull (parsed_defined (credentials_parsed hanswer))
  obtain ⟨value, hvalue, hresolved⟩ := hresolves
  rw [haccess] at hvalue
  cases hvalue
  rw [Callback.run, hresolved, assign, ← Service.key, if_neg (key_ne_proto s)]

theorem provided_resolves (h : Answers fmt exec uris creds) (store : Props fmt.Number) :
    Callback.ups.run fmt exec store = .resolved (setAll store creds) := by
  obtain ⟨text, hexec, hcreds⟩ := h.provided
  have hassign : ∀ (members store : Props fmt.Number), proto ∉ members.map Prod.fst →
      members.foldl (fun store p => assign store p.1 p.2) store = setAll store members := by
    intro members
    induction members with
    | nil => exact fun store _ => rfl
    | cons p members ih =>
      intro store hproto
      obtain ⟨hp, hmembers⟩ := not_or.1 (List.mem_cons.not.1 hproto)
      rw [List.foldl_cons, ih _ hmembers, assign, if_neg (Ne.symm hp)]
      rfl
  rw [Callback.run, provided_answer hexec hcreds, enumerate, hassign creds store h.proto_free]

/-! ## Any order -/

/-- what the callbacks that are done have to give -/
def Given (uris : Service → Units) (creds : Props fmt.Number) (done : List Callback)
    (props : Props fmt.Number) : Prop :=
  (∀ s : Service, props.lookup s.key = if .service s ∈ done then some (.str (uris s)) else none) ∧
    ∀ k, (∀ s : Service, k ≠ s.key) → props.lookup k = if .ups ∈ done then creds.lookup k else none

/-- after the callbacks that are done -/
structure Inv (uris : Service → Units) (creds : Props fmt.Number) (done : List Callback) (st : State fmt.Number) :
    Prop where
  alive : st.crashed = false
  promises : ∀ c, st.promises c = if c ∈ done then .resolved else .pending
  ordered : Ordered st.store
  parsed : ∀ p ∈ st.store, Parsed p.2
  given : Given uris creds done st.store
  written : st.written = if ∀ c ∈ allCallbacks, c ∈ done then [stringify fmt (.obj st.store)] else []

theorem given_service {done : List Callback} {store : Props fmt.Number} (h : Given uris creds done store)
    (s : Service) : Given uris creds (.service s :: done) (set store s.key (.str (uris s))) := by
  refine ⟨fun t => ?_, fun k hk => ?_⟩
  · rw [lookup_set, h.1 t]
    by_cases hts : t = s
    · subst hts
      rw [if_pos rfl, if_pos List.mem_cons_self]
    · have hkey : t.key ≠ s.key := fun he => hts (key_injective he)
      have hmem : Callback.service t ∈ Callback.service s :: done ↔ Callback.service t ∈ done := by
        simp [hts]
      rw [if_neg hkey, if_congr hmem rfl rfl]
  · have hmem : Callback.ups ∈ Callback.service s :: done ↔ Callback.ups ∈ done := by simp
    rw [lookup_set, if_neg (hk s), h.2 k hk, if_congr hmem rfl rfl]

theorem given_ups (hanswers : Answers fmt exec uris creds) {done : List Callback} {store : Props fmt.Number}
    (h : Given uris creds done store) : Given uris creds (.ups :: done) (setAll store creds) := by
  have hnodup : (creds.map Prod.fst).Nodup := by
    cases creds_parsed hanswers with
    | obj hordered _ => exact hordered.1
  refine ⟨fun s => ?_, fun k hk => ?_⟩
  · have hmem : Callback.service s ∈ Callback.ups :: done ↔ Callback.service s ∈ done := by simp
    rw [lookup_setAll hnodup, lookup_eq_none (hanswers.keys_free s), Option.none_or, h.1 s, if_congr hmem rfl rfl]
  · rw [lookup_setAll hnodup, h.2 k hk, if_pos List.mem_cons_self]
    split_ifs
    · exact Option.or_self
    · exact Option.or_none

/-- **A callback adds what it has to give**, whatever ran before it. -/
theorem step_inv (hanswers : Answers fmt exec uris creds) {done : List Callback} {st : State fmt.Number}
    (h : Inv uris creds done st) {c : Callback} (hc : c ∉ done) :
    Inv uris creds (c :: done) (step fmt exec strict st c) := by
  have hpending : st.promises c = .pending := by rw [h.promises, if_neg hc]
  have hactive : ¬ (st.crashed = true ∨ st.promises c ≠ .pending) := by simp [h.alive, hpending]
  have hstore : ∃ store, c.run fmt exec st.store = .resolved store ∧ Ordered store ∧ (∀ p ∈ store, Parsed p.2) ∧
      Given uris creds (c :: done) store := by
    cases c with
    | service s =>
      refine ⟨_, service_resolves hanswers s st.store, set_ordered h.ordered _ _, fun p hp => ?_,
        given_service h.given s⟩
      rcases mem_set hp with rfl | hp
      · exact .str _
      · exact h.parsed p hp
    | ups =>
      refine ⟨_, provided_resolves hanswers st.store, setAll_ordered h.ordered _, fun p hp => ?_,
        given_ups hanswers h.given⟩
      rcases mem_setAll hp with hp | hp
      · exact h.parsed p hp
      · cases creds_parsed hanswers with
        | obj _ hparsed => exact hparsed p hp
  obtain ⟨store, hrun, hordered, hparsed, hgiven⟩ := hstore
  have hpromises : ∀ d, Function.update st.promises c .resolved d = if d ∈ c :: done then .resolved else .pending := by
    intro d
    by_cases hd : d = c
    · rw [hd, Function.update_self, if_pos List.mem_cons_self]
    · rw [Function.update_of_ne hd, h.promises d, if_congr (List.mem_cons.trans (or_iff_right hd)).symm rfl rfl]
  have hbefore : st.written = [] := by
    rw [h.written, if_neg fun hall => hc (hall c (mem_allCallbacks c))]
  have hall : (∀ d ∈ allCallbacks, Function.update st.promises c .resolved d = .resolved) ↔
      ∀ d ∈ allCallbacks, d ∈ c :: done := by
    refine forall_congr' fun d => imp_congr_right fun _ => ?_
    rw [hpromises d]
    split_ifs with hd
    · exact iff_of_true rfl hd
    · exact iff_of_false (by decide) hd
  unfold step
  rw [if_neg hactive, hrun]
  exact {
    alive := h.alive
    promises := hpromises
    ordered := hordered
    parsed := hparsed
    given := hgiven
    written := by
      simp only
      rw [if_congr hall rfl rfl, hbefore, List.nil_append] }

theorem start_inv : Inv uris creds [] (start fmt.Number) where
  alive := rfl
  promises _ := rfl
  ordered := ordered_nil
  parsed _ hp := absurd hp List.not_mem_nil
  given := ⟨fun _ => rfl, fun _ _ => rfl⟩
  written := rfl

/-- after callbacks of which none runs twice -/
theorem run_inv (hanswers : Answers fmt exec uris creds) {done : List Callback} {st : State fmt.Number}
    (h : Inv uris creds done st) {order : List Callback} (hnodup : (order.reverse ++ done).Nodup) :
    Inv uris creds (order.reverse ++ done) (run (step fmt exec strict) st order) := by
  induction order generalizing done st with
  | nil => exact h
  | cons c order ih =>
    rw [List.reverse_cons, List.append_assoc, List.singleton_append] at hnodup ⊢
    have hc : c ∉ done := (List.nodup_cons.1 (List.nodup_append.1 hnodup).2.1).1
    exact ih (step_inv hanswers h hc) hnodup

/-- what is written after all four, in any order -/
theorem run_holds (hanswers : Answers fmt exec uris creds) (horder : order.Perm allCallbacks) :
    Holds fmt uris (writtenProps fmt creds) (localJson fmt exec strict order) := by
  have hnodup : (order.reverse ++ []).Nodup := by
    rw [List.append_nil, List.nodup_reverse, horder.nodup_iff]
    decide
  have hinv : Inv uris creds (order.reverse ++ []) (localJson fmt exec strict order) :=
    run_inv hanswers start_inv hnodup
  have hall : ∀ c, c ∈ order.reverse ++ [] := by
    intro c
    rw [List.append_nil, List.mem_reverse, horder.mem_iff]
    exact mem_allCallbacks c
  refine ⟨_, writtenProps fmt (localJson fmt exec strict order).store, ?_, parse_stringify
    (.obj hinv.ordered hinv.parsed), fun s => ?_, fun k hk => ?_⟩
  · rw [hinv.written, if_pos fun c _ => hall c]
  · rw [lookup_writtenProps, hinv.given.1 s, if_pos (hall _), Option.map_some, written]
  · rw [lookup_writtenProps, lookup_writtenProps, hinv.given.2 k hk, if_pos (hall _)]

end

/-- **local.json does not depend on the order of the callbacks.** -/
theorem local_json_any_order (fmt : NumberFormat) (exec : Exec) (strict : Bool) (order : List Callback)
    (horder : order.Perm allCallbacks) :
    (∀ uris creds, Answers fmt exec uris creds →
        Holds fmt uris (writtenProps fmt creds) (localJson fmt exec strict order)) ∧
      ((∃ c, Fails fmt exec c) → (localJson fmt exec strict order).written = []) :=
  ⟨fun _ _ hanswers => run_holds hanswers horder, fun ⟨_, hc⟩ => run_unwritten hc⟩

end

end

/-! ## A number beyond the doubles -/

def exampleUris : Service → Units := fun _ => ofText ['u']

/-- the credentials of env_setup, `1e999` under TZ -/
def exampleCreds : Props literals.Number := [(ofText "TZ".toList, .num (literals.read "1e999".toList))]

/-- an object with one property -/
def single (key : Text) (v : Value) : Value := .obj [] [(([], key, []), [], v, [])]

theorem single_valid {key : Text} {v : Value} (hkey : LegalStr key) (hv : Valid v) : Valid (single key v) := by
  refine valid_obj nil_blank (fun _ => rfl) fun m hm => ?_
  rw [List.mem_singleton.1 hm]
  exact ⟨⟨nil_blank, hkey, nil_blank⟩, nil_blank, hv, nil_blank⟩

/-- an answer with one credential -/
def exampleAnswer (key : Text) (v : Value) : Value :=
  single "entity".toList (single "credentials".toList (single key v))

theorem exampleAnswer_credentials {key : Text} {v : Value} (hkey : LegalStr key) (hv : Valid v) :
    credentialsOf literals (exampleAnswer key v).text = some (ofValue literals (single key v)) := by
  have hentity : LegalStr "entity".toList := by decide
  have hcredentials : LegalStr "credentials".toList := by decide
  have hparse : jsonParse literals (exampleAnswer key v).text = some (ofValue literals (exampleAnswer key v)) :=
    jsonParse_text (single_valid hentity (single_valid hcredentials (single_valid hkey hv)))
  rw [credentialsOf, entityOf, hparse]
  rfl

def exampleExec : Exec := fun command =>
  if command = userProvidedCommand envSetup then .stdout (exampleAnswer "TZ".toList (.num "1e999".toList)).text
  else .stdout (exampleAnswer "uri".toList (.str ['u'])).text

theorem exampleAnswers : Answers literals exampleExec exampleUris exampleCreds where
  service s := by
    have hother : (Callback.service s).command ≠ userProvidedCommand envSetup := by
      cases s <;> decide
    exact ⟨_, _, if_neg hother, exampleAnswer_credentials (by decide) (.str rfl), rfl⟩
  provided := ⟨_, if_pos rfl, exampleAnswer_credentials (by decide) (.num rfl)⟩
  proto_free := by decide
  keys_free s := by cases s <;> decide

theorem example_any_order : Holds literals exampleUris (writtenProps literals exampleCreds)
    (localJson literals exampleExec true [.ups, .service .rmq, .service .es, .service .pgl]) :=
  (local_json_any_order literals exampleExec true [.ups, .service .rmq, .service .es, .service .pgl] (by decide)).1
    exampleUris exampleCreds exampleAnswers

/-- 1e999 is read as infinite and written as null -/
theorem infinite_number_lost : Answers literals exampleExec exampleUris exampleCreds ∧
    ¬ Holds literals exampleUris exampleCreds (localJson literals exampleExec true allCallbacks) := by
  refine ⟨exampleAnswers, fun h => ?_⟩
  obtain ⟨text, props, hwritten, hparse, -, hprops⟩ := h
  have hnull : Holds literals exampleUris (writtenProps literals exampleCreds)
      (localJson literals exampleExec true allCallbacks) := run_holds exampleAnswers (List.Perm.refl allCallbacks)
  obtain ⟨text', props', hwritten', hparse', -, hprops'⟩ := hnull
  have hfree : ∀ s : Service, ofText "TZ".toList ≠ s.key := by
    intro s
    cases s <;> decide
  rw [hwritten] at hwritten'
  obtain rfl := (List.cons.inj hwritten').1
  rw [hparse] at hparse'
  cases hparse'
  have hboth := (hprops _ hfree).symm.trans (hprops' _ hfree)
  cases hboth

end IconSetup.LocalJson
