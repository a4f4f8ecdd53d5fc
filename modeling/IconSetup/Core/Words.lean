/-
The words of a value: what word splitting gives back of words that were joined with blanks, and what pathname expansion
can put in the place of a word.

- `split_joined`: joined words are split into themselves.
- `split_size`: joined again, the words of a text are no longer than the text.
- `expand_subst`: what a captured output stands for, line by line.
- `glob_word`: a word is replaced by one word at least, and by no other characters than its own and those of names.
-/
import Mathlib.Tactic
import IconSetup.Core.Shell

namespace IconSetup.Shell

/-! ## Word splitting -/

/-- words with single blanks between them -/
def joined (words : List Chars) : Chars := [' '].intercalate words

theorem joined_cons (w w' : Chars) (words : List Chars) :
    joined (w :: w' :: words) = w ++ ' ' :: joined (w' :: words) := by
  rw [joined, List.intercalate_cons_cons, List.append_assoc]
  rfl

theorem joined_one (w : Chars) : joined [w] = w := List.intercalate_singleton

theorem mem_splitOnP {p : Char → Bool} {s w : Chars} (h : w ∈ s.splitOnP p) : ∀ c ∈ w, p c = false ∧ c ∈ s := by
  induction s generalizing w with
  | nil =>
    rw [List.splitOnP_nil, List.mem_singleton] at h
    rw [h]
    exact fun c hc => absurd hc List.not_mem_nil
  | cons x s ih =>
    obtain ⟨r, rs, hr⟩ := List.exists_cons_of_ne_nil (List.splitOnP_ne_nil p s)
    rw [List.splitOnP_cons_eq_if_modifyHead, hr, List.modifyHead_cons] at h
    have hr' : ∀ r' ∈ r :: rs, ∀ c ∈ r', p c = false ∧ c ∈ x :: s := by
      intro r' hmem c hc
      obtain ⟨h1, h2⟩ := ih (hr ▸ hmem) c hc
      exact ⟨h1, List.mem_cons_of_mem x h2⟩
    split_ifs at h with hx
    · rcases List.mem_cons.1 h with rfl | h
      · exact fun c hc => absurd hc List.not_mem_nil
      · exact hr' w h
    · rcases List.mem_cons.1 h with rfl | h
      · intro c hc
        rcases List.mem_cons.1 hc with rfl | hc
        · exact ⟨Bool.eq_false_iff.2 hx, List.mem_cons_self⟩
        · exact hr' r List.mem_cons_self c hc
      · exact hr' w (List.mem_cons_of_mem r h)

/-- a word has characters, none of which is a blank -/
theorem mem_split {s w : Chars} (h : w ∈ split s) : w ≠ [] ∧ ∀ c ∈ w, isSpace c = false ∧ c ∈ s := by
  obtain ⟨hmem, hne⟩ := List.mem_filter.1 h
  exact ⟨of_decide_eq_true hne, mem_splitOnP hmem⟩

theorem split_nil : split [] = [] := by
  rw [split, List.splitOnP_nil]
  rfl

/-- **Joined words are split into themselves.** -/
theorem split_joined {words : List Chars} (h : ∀ w ∈ words, w ≠ [] ∧ ∀ c ∈ w, isSpace c = false) :
    split (joined words) = words := by
  induction words with
  | nil => exact split_nil
  | cons w words ih =>
    obtain ⟨hne, hword⟩ := h w List.mem_cons_self
    have hrest := ih fun w' hw' => h w' (List.mem_cons_of_mem w hw')
    cases words with
    | nil => rw [joined_one, split_word hne hword]
    | cons w' words => rw [joined_cons, split_append rfl, split_word hne hword, hrest, List.singleton_append]

/-- the characters of the words, and one more for each -/
def size (words : List Chars) : ℕ := (words.map fun w => w.length + 1).sum

@[simp] theorem size_nil : size [] = 0 := rfl

@[simp] theorem size_cons (w : Chars) (words : List Chars) : size (w :: words) = w.length + 1 + size words := rfl

theorem joined_size (w : Chars) (words : List Chars) : (joined (w :: words)).length + 1 = size (w :: words) := by
  induction words generalizing w with
  | nil => rw [joined_one, size_cons, size_nil]
  | cons w' words ih =>
    have hrest := ih w'
    rw [joined_cons, List.length_append, List.length_cons, size_cons]
    omega

theorem joined_length_le (words : List Chars) : (joined words).length ≤ size words := by
  cases words with
  | nil => exact le_refl 0
  | cons w words =>
    have hsize := joined_size w words
    omega

theorem splitOnP_size (p : Char → Bool) (s : Chars) : size (s.splitOnP p) = s.length + 1 := by
  induction s with
  | nil => rfl
  | cons x s ih =>
    obtain ⟨r, rs, hr⟩ := List.exists_cons_of_ne_nil (List.splitOnP_ne_nil p s)
    rw [hr, size_cons] at ih
    rw [List.splitOnP_cons_eq_if_modifyHead, hr, List.modifyHead_cons]
    split_ifs
    · simp only [size_cons, List.length_nil, List.length_cons]
      omega
    · simp only [size_cons, List.length_cons]
      omega

theorem size_filter_le (p : Chars → Bool) (words : List Chars) : size (words.filter p) ≤ size words := by
  induction words with
  | nil => exact le_refl 0
  | cons w words ih =>
    by_cases hw : p w = true
    · rw [List.filter_cons_of_pos hw, size_cons, size_cons]
      omega
    · rw [List.filter_cons_of_neg hw, size_cons]
      omega

/-- **Joined again, the words of a text are no longer than the text.** -/
theorem split_size (s : Chars) : size (split s) ≤ s.length + 1 := by
  calc size (split s)
    _ ≤ size (s.splitOnP isSpace) := size_filter_le _ _
    _ = s.length + 1 := splitOnP_size isSpace s

/-! ## Captured output -/

theorem split_intercalate (ls : List Chars) : split (['\n'].intercalate ls) = ls.flatMap split := by
  induction ls with
  | nil => exact split_nil
  | cons l ls ih =>
    cases ls with
    | nil => simp
    | cons l' ls =>
      rw [List.flatMap_cons, ← ih, List.intercalate_cons_cons, List.append_assoc, List.singleton_append,
        split_append rfl]

theorem split_rdropWhile (s : Chars) : split (s.rdropWhile fun c => decide (c = '\n')) = split s := by
  induction s using List.reverseRecOn with
  | nil => rfl
  | append_singleton s c ih =>
    by_cases hc : c = '\n'
    · rw [List.rdropWhile_concat_pos _ s c (decide_eq_true hc), ih, hc, split_append rfl, split_nil, List.append_nil]
    · rw [List.rdropWhile_concat_neg _ s c (by simpa using hc)]

/-- **What a captured output stands for, line by line.** -/
theorem expand_subst (loc : ShellLocale) (fs : Files) (ls : List Chars) :
    expand loc fs (subst ls) = ls.flatMap (expand loc fs) := by
  rw [expand, subst, split_rdropWhile, split_intercalate, List.flatMap_assoc]
  rfl

/-! ## Pathname expansion -/

/-- every name has characters, and they have the property -/
def Files.Named (fs : Files) (P : Char → Prop) : Prop := ∀ e ∈ fs.nodes, ∀ name ∈ e.1, name ≠ [] ∧ ∀ c ∈ name, P c

section
variable {loc : ShellLocale} {fs : Files}

theorem mem_names {here : Path} {name : Chars} (h : name ∈ fs.names here) : ∃ e ∈ fs.nodes, name ∈ e.1 := by
  obtain ⟨e, he, hname⟩ := List.mem_filterMap.1 h
  split_ifs at hname with hhere
  exact ⟨e, he, List.mem_of_getLast? hname⟩

/-- a path that a pattern matches has as many components; they are the pattern's or names -/
theorem globFrom_path {here : Path} {components path : List Chars} (h : path ∈ globFrom loc fs here components) :
    path.length = components.length ∧ ∀ name ∈ path, name ∈ components ∨ ∃ e ∈ fs.nodes, name ∈ e.1 := by
  induction components generalizing here path with
  | nil =>
    rw [globFrom, List.mem_singleton] at h
    rw [h]
    exact ⟨rfl, fun name hname => absurd hname List.not_mem_nil⟩
  | cons c cs ih =>
    have hmore : ∀ {next : Path} {x : Chars} {rest : List Chars}, rest ∈ globFrom loc fs next cs →
        (x ∈ c :: cs ∨ ∃ e ∈ fs.nodes, x ∈ e.1) → (x :: rest).length = (c :: cs).length ∧
          ∀ name ∈ x :: rest, name ∈ c :: cs ∨ ∃ e ∈ fs.nodes, name ∈ e.1 := by
      intro next x rest hrest hx
      obtain ⟨hlength, hnames⟩ := ih hrest
      refine ⟨by rw [List.length_cons, List.length_cons, hlength], fun name hname => ?_⟩
      rcases List.mem_cons.1 hname with rfl | hname
      · exact hx
      · exact (hnames name hname).imp_left (List.mem_cons_of_mem c)
    rw [globFrom] at h
    split_ifs at h with hdir hdots
    · exact absurd h List.not_mem_nil
    · obtain ⟨rest, hrest, rfl⟩ := List.mem_map.1 h
      exact hmore hrest (Or.inl List.mem_cons_self)
    · obtain ⟨name, hname, h⟩ := List.mem_flatMap.1 h
      obtain ⟨rest, hrest, rfl⟩ := List.mem_map.1 h
      exact hmore hrest (Or.inr (mem_names (List.mem_filter.1 hname).1))

theorem glob_ne_nil (loc : ShellLocale) (fs : Files) (w : Chars) : glob loc fs w ≠ [] := by
  unfold glob
  split_ifs
  · split
    · exact List.cons_ne_nil _ _
    · assumption
  · exact List.cons_ne_nil _ _

theorem expand_eq_nil {s : Chars} : expand loc fs s = [] ↔ split s = [] := by
  rw [expand, List.flatMap_eq_nil_iff]
  refine ⟨fun h => ?_, fun h w hw => absurd (h ▸ hw) List.not_mem_nil⟩
  rw [List.eq_nil_iff_forall_not_mem]
  exact fun w hw => glob_ne_nil loc fs w (h w hw)

theorem length_le_expand (loc : ShellLocale) (fs : Files) (words : List Chars) :
    words.length ≤ (words.flatMap (glob loc fs)).length := by
  induction words with
  | nil => exact le_refl 0
  | cons w words ih =>
    have hpos := List.length_pos_iff.2 (glob_ne_nil loc fs w)
    rw [List.flatMap_cons, List.length_append, List.length_cons]
    omega

/-- **Words that give themselves back, and nothing else, are left as they are.** -/
theorem glob_words {before words after : List Chars} (h : before ++ words.flatMap (glob loc fs) ++ after = words) :
    before = [] ∧ after = [] ∧ ∀ w ∈ words, glob loc fs w = [w] := by
  have hlength := congrArg List.length h
  have hle := length_le_expand loc fs words
  rw [List.length_append, List.length_append] at hlength
  have hbefore : before = [] := List.length_eq_zero_iff.1 (by omega)
  have hafter : after = [] := List.length_eq_zero_iff.1 (by omega)
  rw [hbefore, hafter, List.nil_append, List.append_nil] at h
  refine ⟨hbefore, hafter, ?_⟩
  clear hlength hle hbefore hafter
  induction words with
  | nil => exact fun w hw => absurd hw List.not_mem_nil
  | cons w words ih =>
    rw [List.flatMap_cons] at h
    obtain ⟨w', rest, hglob⟩ := List.exists_cons_of_ne_nil (glob_ne_nil loc fs w)
    rw [hglob] at h
    obtain ⟨rfl, hrest⟩ := List.cons.inj h
    rw [List.append_eq] at hrest
    have hlength := congrArg List.length hrest
    have hle := length_le_expand loc fs words
    rw [List.length_append] at hlength
    have hnil : rest = [] := List.length_eq_zero_iff.1 (by omega)
    rw [hnil, List.nil_append] at hrest
    intro x hx
    rcases List.mem_cons.1 hx with rfl | hx
    · rw [hglob, hnil]
    · exact ih hrest x hx

/-- what a word is replaced by: itself, or a path -/
theorem mem_glob {w w' : Chars} (h : w' ∈ glob loc fs w) :
    w' = w ∨ ∃ path ∈ globFrom loc fs (fs.base w) (w.splitOn '/'), w' = ['/'].intercalate path := by
  have hsorted : ∀ paths : List (List Chars), w' ∈ loc.sort (paths.map ['/'].intercalate) →
      ∃ path ∈ paths, w' = ['/'].intercalate path := by
    intro paths hmem
    obtain ⟨path, hpath, rfl⟩ := List.mem_map.1 ((loc.sort_perm _).mem_iff.1 hmem)
    exact ⟨path, hpath, rfl⟩
  unfold glob at h
  split_ifs at h
  · split at h
    · exact Or.inl (List.mem_singleton.1 h)
    · exact Or.inr (hsorted _ h)
  · exact Or.inl (List.mem_singleton.1 h)

/-- **A word is replaced by words, with no other characters than its own and those of names.** -/
theorem glob_word {P : Char → Prop} (hnamed : fs.Named P) (hslash : P '/') {w w' : Chars} (hne : w ≠ [])
    (hw : ∀ c ∈ w, P c) (h : w' ∈ glob loc fs w) : w' ≠ [] ∧ ∀ c ∈ w', P c := by
  rcases mem_glob h with rfl | ⟨path, hpath, rfl⟩
  · exact ⟨hne, hw⟩
  · obtain ⟨hlength, hnames⟩ := globFrom_path hpath
    constructor
    · match path, hlength, hnames with
      | [], hlength, _ => exact absurd (List.length_eq_zero_iff.1 hlength.symm) (List.splitOn_ne_nil '/' w)
      | [name], hlength, hnames =>
        rw [List.intercalate_singleton]
        rcases hnames name List.mem_cons_self with hmem | ⟨e, he, hmem⟩
        · obtain ⟨c, hc⟩ := List.length_eq_one_iff.1 hlength.symm
          have hjoin : ['/'].intercalate (w.splitOn '/') = w := List.intercalate_splitOn '/'
          rw [hc] at hmem
          rw [hc, List.intercalate_singleton] at hjoin
          rw [List.mem_singleton.1 hmem, hjoin]
          exact hne
        · exact (hnamed e he name hmem).1
      | name :: name' :: path, _, _ =>
        rw [List.intercalate_cons_cons]
        simp
    · intro x hx
      rcases of_mem_intercalate hx with hx | ⟨name, hmem, hx⟩
      · rw [List.mem_singleton.1 hx]
        exact hslash
      · rcases hnames name hmem with hmem | ⟨e, he, hmem⟩
        · exact hw x (mem_splitOnP hmem x hx).2
        · exact (hnamed e he name hmem).2 x hx

end

end IconSetup.Shell
