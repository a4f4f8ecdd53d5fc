/-
`psql -f`, which reads a script of commands, some of them COPY .. FROM stdin with their lines behind them.

psql goes on after an error. A COPY that has started takes its lines, also when it fails on one of them. A COPY that the
server refuses at once, as a failed block does, takes none, and psql reads its lines as SQL. Lines without a semicolon
stay in the query buffer, and the next command of the script becomes the end of what they began, which is no command. So
a COMMIT behind such lines is lost: the block is still open when psql ends, and no command behind it has an effect.

The lines here are such that none is a command (`Lines`). What else psql makes of them is a parameter (`Scanner`), of which
one thing is known: behind lines that leave something in the buffer (`Lines.pending`), a command is lost.

- `file_session`: what a script leaves is what some of its own commands leave.
- `file_block`: a script that is a block and statements after it, when the block succeeds.
- `file_last`, `file_lost`, `file_error`: when its last COPY fails, when an earlier one does, and what is left in any case.
-/
import Mathlib.Tactic
import IconSetup.Core.Run
import IconSetup.Core.Session

namespace IconSetup.Psql

open IconSetup.Run IconSetup.Session

/-! ## Scripts -/

/-- every backslash is that of a NULL, `\N`; another could be a command of psql -/
def onlyNulls : List Char → Bool
  | [] => true
  | '\\' :: 'N' :: cs => onlyNulls cs
  | '\\' :: _ => false
  | _ :: cs => onlyNulls cs

/-- read as SQL, the line ends no command, and is none of psql or, between backquotes, of a shell -/
def inert (l : List Char) : Bool := !l.contains ';' && !l.contains '\x60' && onlyNulls l

/-- the lines behind a COPY -/
structure Lines where
  lines : List (List Char)
  inert : lines.all inert = true

def endsComment : List Char → Bool
  | [] => false
  | '*' :: '/' :: _ => true
  | _ :: cs => endsComment cs

/-- read as SQL, the lines leave text in the query buffer: they begin with a letter or a digit, and end no comment -/
def Lines.pending (lines : Lines) : Bool :=
  (lines.lines.head?.bind List.head?).any Char.isAlphanum && lines.lines.all fun l => !endsComment l

inductive Item (S : Type) where
  | command (c : Command S)
  /-- COPY .. FROM stdin, its lines, and `\.` -/
  | copy (s : S) (lines : Lines)

def Item.toCommand {S : Type} : Item S → Command S
  | .command c => c
  | .copy s _ => .stmt s

/-- how psql reads SQL: whether text is left in its query buffer after these items, so that the next one is lost in it -/
structure Scanner (S : Type) where
  lost : List (Item S) → Bool
  lost_nil : lost [] = false
  lost_lines : ∀ items s lines, lines.pending = true → lost (items ++ [.copy s lines]) = true

structure Client (D S : Type) where
  session : State D
  /-- what was read as SQL since a COPY was refused -/
  asSql : List (Item S)

section
variable {D S : Type} (psql : Scanner S) (exec : D → S → Except D D) (undo : D → D → D)

/-- the next item of the script; one that is lost is in a query that the failed block refuses -/
def read (client : Client D S) (item : Item S) : Client D S :=
  if psql.lost client.asSql then { client with asSql := client.asSql ++ [item] }
  else
    match item with
    | .command c => ⟨step exec undo client.session c, []⟩
    | .copy s lines =>
      match client.session with
      | .failed left => ⟨.failed left, [.copy s lines]⟩
      | session => ⟨step exec undo session (.stmt s), []⟩

def start (db : D) : Client D S := ⟨.idle db, []⟩

/-- `psql -f` -/
def file (db : D) (items : List (Item S)) : D := close undo (run (read psql exec undo) (start db) items).session

/-- a statement, or a COPY with its lines -/
def Item.of : S × Option Lines → Item S
  | (s, none) => .command (.stmt s)
  | (s, some lines) => .copy s lines

/-- START TRANSACTION, statements, a COPY, COMMIT, and statements after that -/
def block (body : List (S × Option Lines)) (s : S) (lines : Lines) (after : List S) : List (Item S) :=
  .command .begin :: (body.map .of ++ [.copy s lines] ++ .command .commit :: after.map fun s => .command (.stmt s))

/-! ## What reaches the server -/

/-- a script without inline lines is what it says -/
theorem commands_read (session : State D) (cs : List (Command S)) :
    run (read psql exec undo) ⟨session, []⟩ (cs.map .command) = ⟨run (step exec undo) session cs, []⟩ := by
  induction cs generalizing session with
  | nil => rfl
  | cons c cs ih =>
    have hread : read psql exec undo ⟨session, []⟩ (.command c) = ⟨step exec undo session c, []⟩ := by
      simp [read, psql.lost_nil]
    rw [List.map_cons, run_cons, run_cons, hread, ih]

/-- one item is one of its commands, or none -/
theorem read_session (client : Client D S) (item : Item S) :
    (read psql exec undo client item).session = client.session ∨
      (read psql exec undo client item).session = step exec undo client.session item.toCommand := by
  unfold read
  split_ifs
  · exact Or.inl rfl
  · cases item with
    | command c => exact Or.inr rfl
    | copy s lines =>
      cases client.session with
      | failed left => exact Or.inl rfl
      | idle db => exact Or.inr rfl
      | block saved now => exact Or.inr rfl

theorem read_sublist (client : Client D S) (items : List (Item S)) :
    ∃ cs : List (Command S), cs.Sublist (items.map Item.toCommand) ∧
      (run (read psql exec undo) client items).session = run (step exec undo) client.session cs := by
  induction items generalizing client with
  | nil => exact ⟨[], List.Sublist.refl _, rfl⟩
  | cons item items ih =>
    obtain ⟨cs, hcs, he⟩ := ih (read psql exec undo client item)
    rcases read_session psql exec undo client item with hsame | hstep
    · exact ⟨cs, hcs.cons _, by rw [run_cons, he, hsame]⟩
    · exact ⟨item.toCommand :: cs, hcs.cons_cons _, by rw [run_cons, he, hstep, run_cons]⟩

/-- **A script is a session of some of its own commands.** -/
theorem file_session (db : D) (items : List (Item S)) : ∃ cs : List (Command S), cs.Sublist (items.map Item.toCommand) ∧
    file psql exec undo db items = close undo (run (step exec undo) (.idle db) cs) := by
  obtain ⟨cs, hcs, he⟩ := read_sublist psql exec undo (start db) items
  exact ⟨cs, hcs, congrArg (close undo) he⟩

/-! ## A block -/

/-- an item of an open block is tried -/
theorem read_of (saved now : D) (p : S × Option Lines) : read psql exec undo ⟨.block saved now, []⟩ (.of p) =
    ⟨match exec now p.1 with
      | .ok db => .block saved db
      | .error left => .failed (undo saved left), []⟩ := by
  obtain ⟨s, lines⟩ := p
  cases lines with
  | none =>
    simp only [Item.of, read, psql.lost_nil, Bool.false_eq_true, if_false]
    rfl
  | some lines =>
    simp only [Item.of, read, psql.lost_nil, Bool.false_eq_true, if_false]
    rfl

/-- an item of a failed block is refused, or lost -/
theorem read_failed (left : D) (asSql : List (Item S)) {item : Item S} (h : item.toCommand ≠ .commit) :
    ∃ asSql', read psql exec undo ⟨.failed left, asSql⟩ item = ⟨.failed left, asSql'⟩ := by
  unfold read
  split_ifs
  · exact ⟨_, rfl⟩
  · cases item with
    | copy s lines => exact ⟨_, rfl⟩
    | command c =>
      cases c with
      | commit => exact absurd rfl h
      | begin => exact ⟨_, rfl⟩
      | stmt s => exact ⟨_, rfl⟩

theorem failed_read (left : D) (asSql : List (Item S)) {items : List (Item S)}
    (h : ∀ item ∈ items, item.toCommand ≠ .commit) :
    ∃ asSql', run (read psql exec undo) ⟨.failed left, asSql⟩ items = ⟨.failed left, asSql'⟩ := by
  induction items generalizing asSql with
  | nil => exact ⟨asSql, rfl⟩
  | cons item items ih =>
    obtain ⟨asSql', he⟩ := read_failed psql exec undo left asSql (h item List.mem_cons_self)
    rw [run_cons, he]
    exact ih asSql' fun i hi => h i (List.mem_cons_of_mem item hi)

theorem of_ne_commit (p : S × Option Lines) : (Item.of p).toCommand ≠ .commit := by
  obtain ⟨s, _ | lines⟩ := p <;> exact fun h => by cases h

/-- the statements of a block, up to the first that fails -/
theorem body_run (saved now : D) (body : List (S × Option Lines)) :
    (∃ db, execAll exec now (body.map Prod.fst) = .ok db ∧
      run (read psql exec undo) ⟨.block saved now, []⟩ (body.map .of) = ⟨.block saved db, []⟩) ∨
    ∃ left asSql, execAll exec now (body.map Prod.fst) = .error left ∧
      run (read psql exec undo) ⟨.block saved now, []⟩ (body.map .of) = ⟨.failed (undo saved left), asSql⟩ := by
  induction body generalizing now with
  | nil => exact Or.inl ⟨now, rfl, rfl⟩
  | cons p body ih =>
    simp only [List.map_cons, run_cons, read_of, execAll_cons]
    cases exec now p.1 with
    | ok db => exact ih db
    | error left =>
      have hrest : ∀ item ∈ body.map Item.of, item.toCommand ≠ .commit :=
        List.forall_mem_map.2 fun q _ => of_ne_commit q
      obtain ⟨asSql, he⟩ := failed_read psql exec undo (undo saved left) [] hrest
      exact Or.inr ⟨left, asSql, rfl, he⟩

/-- COMMIT and what follows, where nothing is lost -/
theorem commit_run (session : State D) (after : List S) :
    run (read psql exec undo) ⟨session, []⟩ (.command .commit :: after.map fun s => .command (.stmt s)) =
      ⟨run (step exec undo) session (.commit :: after.map .stmt), []⟩ := by
  have hitems : (.command .commit :: after.map fun s => .command (.stmt s) : List (Item S)) =
      (.commit :: after.map .stmt : List (Command S)).map .command := by
    rw [List.map_cons, List.map_map]
    rfl
  rw [hitems, commands_read psql exec undo]

/-- a COMMIT that is lost ends nothing, and what follows it is refused -/
theorem commit_lost {left : D} {asSql : List (Item S)} (hlost : psql.lost asSql = true) (after : List S) :
    (run (read psql exec undo) ⟨.failed left, asSql⟩
      (.command .commit :: after.map fun s => .command (.stmt s))).session = .failed left := by
  have hread : read psql exec undo ⟨.failed left, asSql⟩ (.command .commit) =
      ⟨.failed left, asSql ++ [.command .commit]⟩ := by
    rw [read, if_pos hlost]
  have hrest : ∀ item ∈ after.map fun s => Item.command (Command.stmt s), item.toCommand ≠ .commit :=
    List.forall_mem_map.2 fun s _ h => by cases h
  obtain ⟨asSql', he⟩ := failed_read psql exec undo left (asSql ++ [.command .commit]) hrest
  rw [run_cons, hread, he]

/-- from a committed block, or a failed one, with nothing lost -/
theorem commit_close {session : State D} {db : D} (h : step exec undo session .commit = .idle db) (after : List S) :
    close undo (run (read psql exec undo) ⟨session, []⟩
      (.command .commit :: after.map fun s => .command (.stmt s))).session =
      run (fun db s => result (exec db s)) db after := by
  rw [commit_run, run_cons, h, idle_run]
  rfl

variable {db db' left : D} {body : List (S × Option Lines)} {s : S} {lines : Lines} {after : List S}

/-- what a script of this form comes to, from where its statements leave it -/
theorem file_eq {client : Client D S} (h : run (read psql exec undo) ⟨.block db db, []⟩ (body.map .of) = client) :
    file psql exec undo db (block body s lines after) = close undo
      (run (read psql exec undo) (read psql exec undo client (.copy s lines))
        (.command .commit :: after.map fun s => .command (.stmt s))).session := by
  have hbegin : read psql exec undo (start db) (.command .begin) = ⟨.block db db, []⟩ := by
    rw [read, start, if_neg (by simp [psql.lost_nil])]
    rfl
  rw [file, block, run_cons, hbegin, run_append, run_append, h]
  rfl

theorem body_ok (h : execAll exec db (body.map Prod.fst) = .ok db') :
    run (read psql exec undo) ⟨.block db db, []⟩ (body.map .of) = ⟨.block db db', []⟩ := by
  rcases body_run psql exec undo db db body with ⟨d, hd, he⟩ | ⟨d, _, hd, -⟩
  · rw [h] at hd
    cases hd
    exact he
  · rw [h] at hd
    cases hd

theorem body_error (h : execAll exec db (body.map Prod.fst) = .error left) : ∃ asSql,
    run (read psql exec undo) ⟨.block db db, []⟩ (body.map .of) = ⟨.failed (undo db left), asSql⟩ := by
  rcases body_run psql exec undo db db body with ⟨d, hd, -⟩ | ⟨d, asSql, hd, he⟩
  · rw [h] at hd
    cases hd
  · rw [h] at hd
    cases hd
    exact ⟨asSql, he⟩

/-- **A block whose statements all succeed** is committed, and the statements after it are run. -/
theorem file_block (hbody : execAll exec db (body.map Prod.fst) = .ok left) (hlast : exec left s = .ok db') :
    file psql exec undo db (block body s lines after) = run (fun db s => result (exec db s)) db' after := by
  have hcopy := read_of psql exec undo db left (s, some lines)
  rw [hlast] at hcopy
  have hread : read psql exec undo ⟨.block db left, []⟩ (.copy s lines) = ⟨.block db db', []⟩ := hcopy
  rw [file_eq psql exec undo (body_ok psql exec undo hbody), hread, commit_close psql exec undo rfl]

/-- **Where only the last COPY fails**, it takes its lines, and COMMIT undoes the block before the rest is run. -/
theorem file_last (hbody : execAll exec db (body.map Prod.fst) = .ok db') (hlast : exec db' s = .error left) :
    file psql exec undo db (block body s lines after) = run (fun db s => result (exec db s)) (undo db left) after := by
  have hcopy := read_of psql exec undo db db' (s, some lines)
  rw [hlast] at hcopy
  have hread : read psql exec undo ⟨.block db db', []⟩ (.copy s lines) = ⟨.failed (undo db left), []⟩ := hcopy
  rw [file_eq psql exec undo (body_ok psql exec undo hbody), hread, commit_close psql exec undo rfl]

/-- the last COPY of a failed block leaves the client with its lines as SQL, or is lost itself -/
theorem copy_failed (left : D) (asSql : List (Item S)) (s : S) (lines : Lines) :
    ∃ items, read psql exec undo ⟨.failed left, asSql⟩ (.copy s lines) = ⟨.failed left, items ++ [.copy s lines]⟩ := by
  unfold read
  split_ifs
  · exact ⟨asSql, rfl⟩
  · exact ⟨[], rfl⟩

/-- **Where an earlier statement fails, the COMMIT behind pending lines is lost**, and nothing after it has an effect. -/
theorem file_lost (hbody : execAll exec db (body.map Prod.fst) = .error left) (hpending : lines.pending = true) :
    file psql exec undo db (block body s lines after) = undo db left := by
  obtain ⟨asSql, hfailed⟩ := body_error psql exec undo hbody
  obtain ⟨items, hcopy⟩ := copy_failed psql exec undo (undo db left) asSql s lines
  rw [file_eq psql exec undo hfailed, hcopy, commit_lost psql exec undo (psql.lost_lines items s lines hpending)]
  rfl

/-- whatever the lines are, all that is left open is whether the statements after the block are run -/
theorem file_error (hbody : execAll exec db (body.map Prod.fst) = .error left) :
    file psql exec undo db (block body s lines after) = undo db left ∨
      file psql exec undo db (block body s lines after) =
        run (fun db s => result (exec db s)) (undo db left) after := by
  obtain ⟨asSql, hfailed⟩ := body_error psql exec undo hbody
  obtain ⟨items, hcopy⟩ := copy_failed psql exec undo (undo db left) asSql s lines
  rw [file_eq psql exec undo hfailed, hcopy]
  by_cases hlost : psql.lost (items ++ [.copy s lines]) = true
  · left
    rw [commit_lost psql exec undo hlost]
    rfl
  · right
    have hcommit : read psql exec undo ⟨.failed (undo db left), items ++ [.copy s lines]⟩ (.command .commit) =
        ⟨.idle (undo db left), []⟩ := by
      rw [read, if_neg hlost]
      rfl
    have hitems : (after.map fun s => .command (.stmt s) : List (Item S)) =
        (after.map .stmt : List (Command S)).map .command := by
      rw [List.map_map]
      rfl
    rw [run_cons, hcommit, hitems, commands_read, idle_run]
    rfl

end

end IconSetup.Psql
