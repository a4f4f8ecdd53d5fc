/-
What an unquoted variable of a shell script becomes, and the tools that scripts put in a pipeline.

The value of an unquoted variable is split into words at blanks; then a word with a wildcard is replaced by the paths
that match it, if there are any. The options of the shell are those of a script that sets none. What a bracket
expression matches, and in which order paths are listed, the locale decides.

A stream is the list of its lines. `subst` is command substitution, which drops the newlines at the end.

- `expand_plain`: a word without blanks and wildcards stands for itself.
- `matchName_doubled`: a pattern of characters and stars matches the name in which every star stands twice.
- `glob_none`, `glob_one`: a word that matches no path is left as it is; one that matches one path becomes it.
- `field_one`, `field_skip`: the fields of a line, one delimiter after the other.
- `subst_grep`: the lines that grep selects are no text iff there are none.
- `infix_intercalate`: a needle without the separator is found in one of the pieces.
-/
import Mathlib.Data.List.DropRight
import Mathlib.Tactic

namespace IconSetup.Shell

abbrev Chars := List Char

/-! ## Files -/

inductive Node where
  | file (content : Chars)
  | dir
deriving DecidableEq, Repr

/-- the names from the root down -/
abbrev Path := List Chars

structure Files where
  cwd : Path
  nodes : List (Path × Node)

def Files.at (fs : Files) (p : Path) : Option Node :=
  if p = [] then some .dir else (fs.nodes.find? fun e => decide (e.1 = p)).map fun e => e.2

/-- what a directory contains -/
def Files.names (fs : Files) (here : Path) : List Chars :=
  fs.nodes.filterMap fun e => if e.1 ≠ [] ∧ e.1.dropLast = here then e.1.getLast? else none

def walk (here : Path) (name : Chars) : Path :=
  if name = [] ∨ name = ['.'] then here else if name = ['.', '.'] then here.dropLast else here ++ [name]

/-- where a path begins -/
def Files.base (fs : Files) (s : Chars) : Path := if s.head? = some '/' then [] else fs.cwd

/-- the file that a path names -/
def Files.path (fs : Files) (s : Chars) : Path := (s.splitOn '/').foldl walk (fs.base s)

/-- `> p`; a directory cannot be written -/
def Files.write (fs : Files) (p : Path) (content : Chars) : Files :=
  if fs.at p = some .dir then fs
  else { fs with nodes := (p, .file content) :: fs.nodes.filter fun e => decide (e.1 ≠ p) }

/-- `>> p` -/
def Files.append (fs : Files) (p : Path) (content : Chars) : Files :=
  match fs.at p with
  | some (.file old) => fs.write p (old ++ content)
  | _ => fs.write p content

/-- `rm p` -/
def Files.remove (fs : Files) (p : Path) : Files :=
  match fs.at p with
  | some (.file _) => { fs with nodes := fs.nodes.filter fun e => decide (e.1 ≠ p) }
  | _ => fs

theorem at_write {fs : Files} {p : Path} (hp : fs.at p ≠ some .dir) (content : Chars) :
    (fs.write p content).at p = some (.file content) := by
  have hne : p ≠ [] := by
    intro he
    exact hp (by rw [he, Files.at, if_pos rfl])
  rw [Files.write, if_neg hp, Files.at, if_neg hne]
  simp

theorem at_append {fs : Files} {p : Path} {old : Chars} (hp : fs.at p = some (.file old)) (content : Chars) :
    (fs.append p content).at p = some (.file (old ++ content)) := by
  have hfile : fs.at p ≠ some .dir := by simp [hp]
  rw [Files.append, hp]
  exact at_write hfile _

theorem write_dir {fs : Files} {p : Path} (hp : fs.at p = some .dir) (content : Chars) : fs.write p content = fs :=
  if_pos hp

theorem append_dir {fs : Files} {p : Path} (hp : fs.at p = some .dir) (content : Chars) : fs.append p content = fs := by
  rw [Files.append, hp]
  exact write_dir hp content

theorem at_remove_ne_dir {fs : Files} {p : Path} (hp : fs.at p ≠ some .dir) : (fs.remove p).at p ≠ some .dir := by
  have hne : p ≠ [] := by
    intro he
    exact hp (by rw [he, Files.at, if_pos rfl])
  unfold Files.remove
  split
  · have hgone : (fs.nodes.filter fun e => decide (e.1 ≠ p)).find? (fun e => decide (e.1 = p)) = none := by
      rw [List.find?_eq_none]
      intro e he
      simpa using (List.mem_filter.1 he).2
    rw [Files.at, if_neg hne, hgone]
    exact fun h => by cases h
  · exact hp

/-! ## Patterns -/

/-- what the locale decides: how many characters the bracket expression behind a `[` has, up to its `]`, and what it
matches; none where there is no such expression. And the order in which paths are listed. -/
structure ShellLocale where
  bracket : Chars → Option (ℕ × (Char → Bool))
  sort : List Chars → List Chars
  sort_perm : ∀ paths, (sort paths).Perm paths

/-- a locale without bracket expressions, which lists paths as they come -/
def plainLocale : ShellLocale where
  bracket _ := none
  sort paths := paths
  sort_perm paths := List.Perm.refl paths

inductive Piece where
  | char (c : Char)
  | one (accepts : Char → Bool)
  | star

def pieces (loc : ShellLocale) : Chars → List Piece
  | [] => []
  | c :: s =>
    if c = '*' then .star :: pieces loc s
    else if c = '?' then .one (fun _ => true) :: pieces loc s
    else if c = '\\' then
      match s with
      | [] => [.char '\\']
      | d :: s => .char d :: pieces loc s
    else if c = '[' then
      match loc.bracket s with
      | some (n, accepts) => .one accepts :: pieces loc (s.drop n)
      | none => .char '[' :: pieces loc s
    else .char c :: pieces loc s
termination_by s => s.length
decreasing_by all_goals simp only [List.length_cons, List.length_drop]; omega

def matchPieces : List Piece → Chars → Bool
  | [], s => s.isEmpty
  | .char c :: ps, s => s.head? == some c && matchPieces ps s.tail
  | .one accepts :: ps, s => s.head?.any accepts && matchPieces ps s.tail
  | .star :: ps, s => s.tails.any fun t => matchPieces ps t

/-- a name that begins with a dot is matched only by a pattern that does -/
def matchName (loc : ShellLocale) (pattern name : Chars) : Bool :=
  (name.head? != some '.' || pattern.head? == some '.') && matchPieces (pieces loc pattern) name

def Piece.isWild : Piece → Bool
  | .char _ => false
  | _ => true

def wild (loc : ShellLocale) (word : Chars) : Bool := (pieces loc word).any Piece.isWild

/-- the paths below a directory that match the names of a pattern, one after the other -/
def globFrom (loc : ShellLocale) (fs : Files) : Path → List Chars → List (List Chars)
  | _, [] => [[]]
  | here, c :: cs =>
    if fs.at here ≠ some .dir then []
    else if c = [] ∨ c = ['.'] ∨ c = ['.', '.'] then (globFrom loc fs (walk here c) cs).map (c :: ·)
    else ((fs.names here).filter fun name => matchName loc c name).flatMap fun name =>
      (globFrom loc fs (here ++ [name]) cs).map (name :: ·)

/-! ## Words -/

def isSpace (c : Char) : Bool := c = ' ' || c = '\t' || c = '\n'

/-- word splitting -/
def split (s : Chars) : List Chars := (s.splitOnP isSpace).filter fun word => decide (word ≠ [])

/-- pathname expansion -/
def glob (loc : ShellLocale) (fs : Files) (word : Chars) : List Chars :=
  if wild loc word then
    match loc.sort ((globFrom loc fs (fs.base word) (word.splitOn '/')).map ['/'].intercalate) with
    | [] => [word]
    | paths => paths
  else [word]

/-- the words that an unquoted variable with this value stands for -/
def expand (loc : ShellLocale) (fs : Files) (s : Chars) : List Chars := (split s).flatMap (glob loc fs)

/-- a character that is no blank and has no meaning in a pattern -/
def plainChar (c : Char) : Bool := !isSpace c && c ≠ '*' && c ≠ '?' && c ≠ '[' && c ≠ '\\'

/-! ## Pipelines -/

/-- `echo words`, where the first word is no option of it -/
def echo (words : List Chars) : List Chars := ([' '].intercalate words).splitOn '\n'

def grep (needle : Chars) (lines : List Chars) : List Chars := lines.filter fun l => decide (needle <:+: l)

/-- field n of a line; a line without the delimiter is a field as a whole -/
def field (d : Char) (n : ℕ) (l : Chars) : Chars := if d ∈ l then (l.splitOn d).getD (n - 1) [] else l

/-- `cut -d d -f n` -/
def cut (d : Char) (n : ℕ) (lines : List Chars) : List Chars := lines.map (field d n)

/-- `tr -d deleted` -/
def tr (deleted : Chars) (lines : List Chars) : List Chars :=
  lines.map fun l => l.filter fun c => decide (c ∉ deleted)

/-- `$(…)` -/
def subst (lines : List Chars) : Chars := (['\n'].intercalate lines).rdropWhile fun c => decide (c = '\n')

/-- `[ -z words ]` -/
def testZ : List Chars → Bool
  | [] => true
  | [word] => word.isEmpty
  | _ => false

/-- `[ -f words ]` -/
def testF (fs : Files) : List Chars → Bool
  | [] => true
  | [word] =>
    match fs.at (fs.path word) with
    | some (.file _) => true
    | _ => false
  | _ => false

/-! ## Words without wildcards -/

theorem pieces_star (loc : ShellLocale) (s : Chars) : pieces loc ('*' :: s) = .star :: pieces loc s := by
  rw [pieces.eq_def]
  exact if_pos rfl

theorem pieces_char (loc : ShellLocale) {c : Char} (hc : c ≠ '*' ∧ c ≠ '?' ∧ c ≠ '[' ∧ c ≠ '\\') (s : Chars) :
    pieces loc (c :: s) = .char c :: pieces loc s := by
  rw [pieces.eq_def]
  simp only [if_neg hc.1, if_neg hc.2.1, if_neg hc.2.2.1, if_neg hc.2.2.2]

theorem pieces_stars {loc : ShellLocale} {s : Chars} (h : ∀ c ∈ s, c ≠ '?' ∧ c ≠ '[' ∧ c ≠ '\\') :
    pieces loc s = s.map fun c => if c = '*' then .star else .char c := by
  induction s with
  | nil => rw [pieces.eq_def, List.map_nil]
  | cons c s ih =>
    have hrest := ih fun x hx => h x (List.mem_cons_of_mem c hx)
    by_cases hc : c = '*'
    · rw [hc, pieces_star, hrest, List.map_cons, if_pos rfl]
    · rw [pieces_char loc ⟨hc, h c List.mem_cons_self⟩, hrest, List.map_cons, if_neg hc]

theorem plainChar_iff {c : Char} :
    plainChar c = true ↔ isSpace c = false ∧ c ≠ '*' ∧ c ≠ '?' ∧ c ≠ '[' ∧ c ≠ '\\' := by
  simp [plainChar, and_assoc]

theorem wild_plain {loc : ShellLocale} {s : Chars} (h : ∀ c ∈ s, plainChar c = true) : wild loc s = false := by
  have hstars : ∀ c ∈ s, c ≠ '?' ∧ c ≠ '[' ∧ c ≠ '\\' := fun c hc => (plainChar_iff.1 (h c hc)).2.2
  rw [wild, pieces_stars hstars, List.any_eq_false]
  intro piece hpiece
  obtain ⟨c, hc, rfl⟩ := List.mem_map.1 hpiece
  rw [if_neg (plainChar_iff.1 (h c hc)).2.1]
  exact Bool.false_ne_true

theorem split_word {s : Chars} (hne : s ≠ []) (h : ∀ c ∈ s, isSpace c = false) : split s = [s] := by
  rw [split, List.splitOnP_eq_singleton h]
  simp [hne]

theorem glob_plain {loc : ShellLocale} {fs : Files} {s : Chars} (h : ∀ c ∈ s, plainChar c = true) :
    glob loc fs s = [s] := by
  rw [glob, wild_plain h]
  rfl

theorem expand_plain {loc : ShellLocale} {fs : Files} {s : Chars} (hne : s ≠ []) (h : ∀ c ∈ s, plainChar c = true) :
    expand loc fs s = [s] := by
  rw [expand, split_word hne fun c hc => (plainChar_iff.1 (h c hc)).1, List.flatMap_singleton, glob_plain h]

theorem split_append {c : Char} (hc : isSpace c = true) (a b : Chars) : split (a ++ c :: b) = split a ++ split b := by
  rw [split, List.splitOnP_append_cons a b hc, List.filter_append]
  rfl

/-- blanks in front are no words -/
theorem split_indent {indent : Chars} (h : ∀ c ∈ indent, isSpace c = true) (s : Chars) :
    split (indent ++ s) = split s := by
  induction indent with
  | nil => rfl
  | cons c indent ih =>
    have hrest := ih fun x hx => h x (List.mem_cons_of_mem c hx)
    have hfront := split_append (h c List.mem_cons_self) [] (indent ++ s)
    rw [List.cons_append, ← hrest]
    simpa [split] using hfront

/-! ## Words with wildcards -/

section
variable {loc : ShellLocale} {fs : Files}

theorem wild_star {s : Chars} (h : ∀ c ∈ s, c ≠ '?' ∧ c ≠ '[' ∧ c ≠ '\\') (hstar : '*' ∈ s) : wild loc s = true := by
  rw [wild, pieces_stars h, List.any_eq_true]
  exact ⟨.star, List.mem_map.2 ⟨'*', hstar, if_pos rfl⟩, rfl⟩

theorem matchPieces_chars (c s : Chars) : matchPieces (c.map Piece.char) s = true ↔ s = c := by
  induction c generalizing s with
  | nil => simp [matchPieces]
  | cons x c ih =>
    cases s with
    | nil => simp [matchPieces]
    | cons y s => simp [matchPieces, ih]

/-- a pattern without wildcards matches itself only -/
theorem matchName_plain {c name : Chars} (hc : ∀ x ∈ c, plainChar x = true) :
    matchName loc c name = true ↔ name = c := by
  have hstars : ∀ x ∈ c, x ≠ '?' ∧ x ≠ '[' ∧ x ≠ '\\' := fun x hx => (plainChar_iff.1 (hc x hx)).2.2
  have hpieces : pieces loc c = c.map Piece.char := by
    rw [pieces_stars hstars]
    exact List.map_congr_left fun x hx => if_neg (plainChar_iff.1 (hc x hx)).2.1
  rw [matchName, hpieces, Bool.and_eq_true, matchPieces_chars]
  refine and_iff_right_of_imp ?_
  intro he
  rw [he]
  cases c.head? with
  | none => rfl
  | some x => by_cases hx : x = '.' <;> simp [hx]

/-- every star twice: a name that the text matches as a pattern -/
def doubled (s : Chars) : Chars := s.flatMap fun c => if c = '*' then ['*', '*'] else [c]

theorem length_doubled (s : Chars) : (doubled s).length = s.length + s.count '*' := by
  induction s with
  | nil => rfl
  | cons c s ih =>
    have hcons : doubled (c :: s) = (if c = '*' then ['*', '*'] else [c]) ++ doubled s := List.flatMap_cons
    rw [hcons, List.length_append, ih, List.count_cons, List.length_cons]
    by_cases hc : c = '*'
    · simp only [if_pos hc, List.length_cons, List.length_nil, beq_iff_eq]
      omega
    · simp only [if_neg hc, List.length_cons, List.length_nil, beq_iff_eq]
      omega

theorem mem_doubled {s : Chars} {c : Char} (hc : c ∈ doubled s) : c ∈ s := by
  obtain ⟨x, hx, hc⟩ := List.mem_flatMap.1 hc
  split_ifs at hc with hstar
  · have he : c = '*' := by simpa using hc
    rw [he, ← hstar]
    exact hx
  · rw [List.mem_singleton.1 hc]
    exact hx

theorem doubled_append (a b : Chars) : doubled (a ++ b) = doubled a ++ doubled b := List.flatMap_append

theorem doubled_plain {s : Chars} (hstar : '*' ∉ s) : doubled s = s := by
  induction s with
  | nil => rfl
  | cons c s ih =>
    obtain ⟨hc, hrest⟩ := List.ne_and_not_mem_of_not_mem_cons hstar
    have hcons : doubled (c :: s) = (if c = '*' then ['*', '*'] else [c]) ++ doubled s := List.flatMap_cons
    rw [hcons, if_neg (Ne.symm hc), ih hrest]
    rfl

theorem doubled_ne {s : Chars} (hstar : '*' ∈ s) : doubled s ≠ s := by
  intro he
  have hlen := length_doubled s
  have := List.count_pos_iff.2 hstar
  rw [he] at hlen
  omega

theorem matchPieces_doubled (s : Chars) :
    matchPieces (s.map fun c => if c = '*' then .star else .char c) (doubled s) = true := by
  induction s with
  | nil => rfl
  | cons c s ih =>
    have hcons : doubled (c :: s) = (if c = '*' then ['*', '*'] else [c]) ++ doubled s := List.flatMap_cons
    rw [hcons, List.map_cons]
    by_cases hc : c = '*'
    · rw [if_pos hc, if_pos hc, matchPieces, List.any_eq_true]
      exact ⟨doubled s, (List.mem_tails _ _).2 (List.suffix_append _ _), ih⟩
    · rw [if_neg hc, if_neg hc]
      simpa [matchPieces] using ih

theorem matchName_doubled {s : Chars} (h : ∀ c ∈ s, c ≠ '?' ∧ c ≠ '[' ∧ c ≠ '\\') :
    matchName loc s (doubled s) = true := by
  have hhead : (doubled s).head? = s.head? := by
    cases s with
    | nil => rfl
    | cons c s =>
      have hcons : doubled (c :: s) = (if c = '*' then ['*', '*'] else [c]) ++ doubled s := List.flatMap_cons
      rw [hcons]
      by_cases hc : c = '*'
      · rw [if_pos hc, hc]; rfl
      · rw [if_neg hc]; rfl
  rw [matchName, pieces_stars h, matchPieces_doubled, hhead, Bool.and_true]
  cases s.head? with
  | none => rfl
  | some c => by_cases hc : c = '.' <;> simp [hc]

/-- a name of a directory on the way -/
theorem globFrom_name {here : Path} {c : Chars} (hdir : fs.at here = some .dir)
    (hc : ¬ (c = [] ∨ c = ['.'] ∨ c = ['.', '.'])) (cs : List Chars) :
    globFrom loc fs here (c :: cs) = ((fs.names here).filter fun name => matchName loc c name).flatMap fun name =>
      (globFrom loc fs (here ++ [name]) cs).map (name :: ·) := by
  rw [globFrom, if_neg (not_not.2 hdir), if_neg hc]

/-- where it is matched by the one name there is -/
theorem globFrom_one {here : Path} {c name : Chars} (hdir : fs.at here = some .dir)
    (hc : ¬ (c = [] ∨ c = ['.'] ∨ c = ['.', '.'])) (hnames : fs.names here = [name])
    (hmatch : matchName loc c name = true) (cs : List Chars) :
    globFrom loc fs here (c :: cs) = (globFrom loc fs (here ++ [name]) cs).map (name :: ·) := by
  rw [globFrom_name hdir hc, hnames, List.filter_cons_of_pos hmatch, List.filter_nil, List.flatMap_singleton]

/-- two slashes are one -/
theorem globFrom_slash {here : Path} (hdir : fs.at here = some .dir) (cs : List Chars) :
    globFrom loc fs here ([] :: cs) = (globFrom loc fs here cs).map ([] :: ·) := by
  rw [globFrom, if_neg (not_not.2 hdir), if_pos (Or.inl rfl), walk, if_pos (Or.inl rfl)]

/-- a word that matches no path stays as it is -/
theorem glob_none {word : Chars} (h : globFrom loc fs (fs.base word) (word.splitOn '/') = []) :
    glob loc fs word = [word] := by
  have hsort : loc.sort [] = [] := List.perm_nil.1 (loc.sort_perm [])
  unfold glob
  rw [h, List.map_nil, hsort]
  split_ifs <;> rfl

/-- nor does it where no name matches its first component -/
theorem glob_unmatched {word c : Chars} {cs : List Chars} (hsplit : word.splitOn '/' = c :: cs)
    (hdir : fs.at (fs.base word) = some .dir) (hc : ¬ (c = [] ∨ c = ['.'] ∨ c = ['.', '.']))
    (hno : ∀ name ∈ fs.names (fs.base word), matchName loc c name = false) : glob loc fs word = [word] := by
  have hnone : (fs.names (fs.base word)).filter (fun name => matchName loc c name) = [] := by
    rw [List.filter_eq_nil_iff]
    intro name hname
    simp [hno name hname]
  refine glob_none ?_
  rw [hsplit, globFrom_name hdir hc, hnone, List.flatMap_nil]

/-- a word that matches one path becomes that path -/
theorem glob_one {word : Chars} (hwild : wild loc word = true) {p : List Chars}
    (h : globFrom loc fs (fs.base word) (word.splitOn '/') = [p]) : glob loc fs word = [['/'].intercalate p] := by
  have hsort : loc.sort [['/'].intercalate p] = [['/'].intercalate p] := List.perm_singleton.1 (loc.sort_perm _)
  rw [glob, if_pos hwild, h, List.map_singleton, hsort]

end

/-! ## Fields -/

theorem splitOn_head (d : Char) (l : Chars) : ∃ rest, l.splitOn d = l.takeWhile (fun c => decide (c ≠ d)) :: rest := by
  induction l with
  | nil => exact ⟨[], rfl⟩
  | cons c l ih =>
    obtain ⟨rest, ih⟩ := ih
    rw [List.splitOn_cons_eq_if_modifyHead, ih]
    by_cases hc : c = d
    · exact ⟨_, by simp [hc]; rfl⟩
    · exact ⟨rest, by simp [hc]⟩

/-- the first field ends at the delimiter -/
theorem field_one (d : Char) (l : Chars) : field d 1 l = l.takeWhile fun c => decide (c ≠ d) := by
  obtain ⟨rest, hsplit⟩ := splitOn_head d l
  unfold field
  split_ifs with hd
  · rw [hsplit]; rfl
  · refine (List.takeWhile_eq_self_iff.2 fun c hc => ?_).symm
    exact decide_eq_true fun he => hd (he ▸ hc)

/-- behind a delimiter the fields are counted again, where there is another one or one field is left -/
theorem field_skip {d : Char} {a b : Chars} (ha : d ∉ a) {n : ℕ} (h : d ∈ b ∨ n = 0) :
    field d (n + 2) (a ++ d :: b) = field d (n + 1) b := by
  have hd : d ∈ a ++ d :: b := List.mem_append_right a List.mem_cons_self
  rw [field, if_pos hd, List.splitOn_append_cons_self_of_not_mem ha]
  rcases h with h | rfl
  · rw [field, if_pos h]
    rfl
  · obtain ⟨rest, hsplit⟩ := splitOn_head d b
    rw [field_one, hsplit]
    rfl

theorem field_head {d : Char} {a : Chars} (ha : d ∉ a) (b : Chars) : field d 1 (a ++ d :: b) = a := by
  have hkept : ∀ c ∈ a, decide (c ≠ d) = true := fun c hc => decide_eq_true fun he => ha (he ▸ hc)
  rw [field_one, List.takeWhile_append_of_pos hkept]
  simp

theorem field_whole {d : Char} {a : Chars} (ha : d ∉ a) (n : ℕ) : field d n a = a := if_neg ha

/-- one line without a newline -/
theorem subst_line {s : Chars} (h : '\n' ∉ s) : subst [s] = s := by
  rw [subst, List.intercalate_singleton]
  refine List.rdropWhile_eq_self_iff.2 ?_
  intro hne hlast
  exact h (of_decide_eq_true hlast ▸ List.getLast_mem hne)

/-! ## Needles -/

/-- a needle that does not contain the separator is found on one side of it -/
theorem infix_sep {needle a b : Chars} {sep : Char} (hsep : sep ∉ needle) :
    needle <:+: a ++ sep :: b ↔ needle <:+: a ∨ needle <:+: b := by
  constructor
  · rintro ⟨s, t, he⟩
    rcases List.append_eq_append_iff.1 he with ⟨mid, h1, -⟩ | ⟨mid, h1, h2⟩
    · exact Or.inl ⟨s, mid, h1.symm⟩
    · rcases List.append_eq_append_iff.1 h1 with ⟨m, h3, h4⟩ | ⟨m, h3, h4⟩
      · cases mid with
        | nil => exact Or.inl ⟨s, [], by rw [h1, List.append_nil, List.append_nil]⟩
        | cons c mid =>
          obtain ⟨rfl, -⟩ := List.cons.inj h2
          exact absurd (h4 ▸ List.mem_append_right m List.mem_cons_self) hsep
      · cases m with
        | nil =>
          rw [List.nil_append] at h4
          cases needle with
          | nil => exact Or.inl List.nil_infix
          | cons d needle =>
            rw [h4] at h2
            obtain ⟨rfl, -⟩ := List.cons.inj h2
            exact absurd List.mem_cons_self hsep
        | cons c m =>
          rw [h4] at h2
          obtain ⟨-, rfl⟩ := List.cons.inj h2
          exact Or.inr ⟨m, t, rfl⟩
  · intro h
    rcases h with h | h
    · exact List.infix_append_of_infix_left h
    · exact List.infix_append_of_infix_right (List.infix_cons h)

/-- the same for separators of any length -/
theorem infix_seps {needle sep : Chars} (hne : needle ≠ []) (hsep : ∀ c ∈ sep, c ∉ needle) (hlen : sep ≠ [])
    (a b : Chars) : needle <:+: a ++ sep ++ b ↔ needle <:+: a ∨ needle <:+: b := by
  induction sep generalizing a with
  | nil => exact absurd rfl hlen
  | cons c sep ih =>
    have hc := hsep c List.mem_cons_self
    rw [List.append_assoc, List.cons_append, infix_sep hc]
    cases sep with
    | nil => rfl
    | cons d sep =>
      have hrest := ih (fun x hx => hsep x (List.mem_cons_of_mem c hx)) (List.cons_ne_nil d sep) []
      have hnil : ¬ needle <:+: [] := fun h => hne (List.infix_nil.1 h)
      rw [List.nil_append] at hrest
      rw [hrest, or_iff_right hnil]

theorem infix_intercalate {needle sep : Chars} (hne : needle ≠ []) (hsep : ∀ c ∈ sep, c ∉ needle) (hlen : sep ≠ [])
    (xs : List Chars) : needle <:+: sep.intercalate xs ↔ ∃ x ∈ xs, needle <:+: x := by
  induction xs with
  | nil => simp [hne]
  | cons x xs ih =>
    cases xs with
    | nil => simp
    | cons y ys =>
      rw [List.intercalate_cons_cons, infix_seps hne hsep hlen, ih]
      simp

theorem mem_intercalate {sep l : Chars} {lines : List Chars} (hl : l ∈ lines) {c : Char} (hc : c ∈ l) :
    c ∈ sep.intercalate lines := by
  induction lines with
  | nil => exact absurd hl List.not_mem_nil
  | cons x lines ih =>
    cases lines with
    | nil =>
      rw [List.mem_singleton.1 hl] at hc
      rwa [List.intercalate_singleton]
    | cons y lines =>
      rw [List.intercalate_cons_cons, List.append_assoc]
      rcases List.mem_cons.1 hl with rfl | hl
      · exact List.mem_append_left _ hc
      · exact List.mem_append_right _ (List.mem_append_right _ (ih hl))

theorem of_mem_intercalate {sep : Chars} {lines : List Chars} {c : Char} (hc : c ∈ sep.intercalate lines) :
    c ∈ sep ∨ ∃ l ∈ lines, c ∈ l := by
  induction lines with
  | nil => exact absurd hc List.not_mem_nil
  | cons x lines ih =>
    cases lines with
    | nil =>
      rw [List.intercalate_singleton] at hc
      exact Or.inr ⟨x, List.mem_cons_self, hc⟩
    | cons y lines =>
      rw [List.intercalate_cons_cons, List.append_assoc] at hc
      rcases List.mem_append.1 hc with hc | hc
      · exact Or.inr ⟨x, List.mem_cons_self, hc⟩
      · rcases List.mem_append.1 hc with hc | hc
        · exact Or.inl hc
        · obtain hsep | ⟨l, hl, hc⟩ := ih hc
          · exact Or.inl hsep
          · exact Or.inr ⟨l, List.mem_cons_of_mem x hl, hc⟩

/-- the lines that grep selects are no text iff there are none -/
theorem subst_grep {needle : Chars} {c : Char} (hc : c ∈ needle) (hnl : c ≠ '\n') (lines : List Chars) :
    subst (grep needle lines) = [] ↔ ∀ l ∈ lines, ¬ needle <:+: l := by
  constructor
  · intro h l hl hin
    have hmem : l ∈ grep needle lines := List.mem_filter.2 ⟨hl, decide_eq_true hin⟩
    have hall := List.rdropWhile_eq_nil_iff.1 h c (mem_intercalate hmem (hin.subset hc))
    exact hnl (of_decide_eq_true hall)
  · intro h
    have hnone : grep needle lines = [] := by
      rw [grep, List.filter_eq_nil_iff]
      intro l hl
      simpa using h l hl
    rw [hnone]
    rfl

end IconSetup.Shell
