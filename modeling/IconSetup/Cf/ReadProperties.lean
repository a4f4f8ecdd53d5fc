/-
scripts/read_properties.sh: the value of a key in a file of `key=value` lines.

The key goes to grep as a regular expression that may match anywhere in a line, so that the value comes with those of
all keys and values that contain it. cut ends it at the next `=`; the unquoted `echo` splits it into words, puts paths
in the place of patterns and takes words like -n for options.

- `readProperties_eq`: what reaches `echo`, word by word.
- `clean_right`: when the value is printed.
- `right_clean`: it is printed only then, as long as K's own line is found and nothing else happens to make it up.
- `literal_found`: a key of letters and digits finds its line.
- `contained_wrong`: but with it every other line that contains it.
- `read_property_iff`: both directions.
-/
import Mathlib.Tactic
import IconSetup.Core.BashEcho

namespace IconSetup.ReadProperties

open IconSetup.Shell hiding echo grep
open IconSetup.BashEcho

/-! ## Tools -/

/-- which lines a regular expression matches, and what grep and cat do with other operands than a pattern, or files -/
structure Tools where
  selects : Chars → Chars → Bool
  /-- letters and digits stand for themselves -/
  literal : ∀ pattern line, (∀ c ∈ pattern, c.isAlphanum = true) → (selects pattern line = true ↔ pattern <:+: line)
  grep : Files → List Chars → List Chars → List Chars
  cat : Files → List Chars → Chars

/-- a dash begins an option, or stands for the input -/
def dashed (word : Chars) : Bool := word.head? == some '-'

/-- `cat words` -/
def cat (tools : Tools) (fs : Files) (words : List Chars) : Chars :=
  if words.isEmpty || words.any dashed then tools.cat fs words
  else words.flatMap fun word =>
    match fs.at (fs.path word) with
    | some (.file text) => text
    | _ => []

/-- the lines of a text; the last one may do without a line end -/
def textLines (text : Chars) : List Chars :=
  if (text.splitOn '\n').getLast? = some [] then (text.splitOn '\n').dropLast else text.splitOn '\n'

/-- `grep words`; without a pattern nothing is printed -/
def grep (tools : Tools) (fs : Files) (words : List Chars) (lines : List Chars) : List Chars :=
  match words with
  | [] => []
  | [pattern] => if dashed pattern then tools.grep fs [pattern] lines else lines.filter (tools.selects pattern)
  | words => tools.grep fs words lines

/-! ## The script -/

def usage : Chars := "usage: readProp.sh <location of properties file> <name of property to read>".toList

/-- prop_value -/
def getProperty (loc : ShellLocale) (tools : Tools) (fs : Files) (words : List Chars) : Chars :=
  subst (cut '=' 2 (grep tools fs (expand loc fs (words.getD 1 []))
    (textLines (cat tools fs (expand loc fs (words.getD 0 []))))))

def readProperties (loc : ShellLocale) (tools : Tools) (fs : Files) (args : List Chars) : Chars :=
  if args.length = 0 then usage ++ ['\n']
  else echo (expand loc fs (getProperty loc tools fs
    (expand loc fs (args.getD 0 []) ++ expand loc fs (args.getD 1 []))))

/-! ## What it should do -/

def lineOf (entry : Chars × Chars) : Chars := entry.1 ++ '=' :: entry.2

/-- the call, and what it finds: the file with its lines, no two with the same key, and one of them with the key -/
structure Setting where
  loc : ShellLocale
  tools : Tools
  fs : Files
  file : Chars
  key : Chars
  value : Chars
  entries : List (Chars × Chars)
  keys : ∀ entry ∈ entries, '=' ∉ entry.1
  nodup : (entries.map fun entry => entry.1).Nodup
  text : Chars
  content : fs.at (fs.path file) = some (.file text)
  lines : textLines text = entries.map lineOf
  mem : (key, value) ∈ entries

/-- the value is printed -/
def Setting.Right (s : Setting) : Prop :=
  readProperties s.loc s.tools s.fs [s.file, s.key] = s.value ++ ['\n']

/-- a value up to its first `=` -/
def front (value : Chars) : Chars := value.takeWhile fun c => decide (c ≠ '=')

/-- what grep is called with -/
def Setting.patterns (s : Setting) : List Chars :=
  expand s.loc s.fs ((expand s.loc s.fs s.file ++ expand s.loc s.fs s.key).getD 1 [])

/-- cat reads the file, grep looks for one pattern, and it finds the line, which does not matter for an empty value -/
structure Setting.Found (s : Setting) (pattern : Chars) : Prop where
  reads : expand s.loc s.fs s.file = [s.file] ∧ dashed s.file = false
  asks : s.patterns = [pattern] ∧ dashed pattern = false
  finds : s.value = [] ∨ s.tools.selects pattern (lineOf (s.key, s.value)) = true

/-- all other lines that are found have values that are blank up to their first `=` -/
def Setting.Alone (s : Setting) (pattern : Chars) : Prop :=
  ∀ entry ∈ s.entries, entry.1 ≠ s.key → s.tools.selects pattern (lineOf entry) = true → split (front entry.2) = []

/-- pathname expansion leaves the words of the text as they are -/
def Setting.Unchanged (s : Setting) (text : Chars) : Prop := ∀ word ∈ split text, glob s.loc s.fs word = [word]

/-- only the line of the key is found, and its value is words with single blanks between them, without `=`, paths or an
option of echo in front -/
structure Setting.Clean (s : Setting) (pattern : Chars) : Prop where
  found : s.Found pattern
  alone : s.Alone pattern
  delimiter : '=' ∉ s.value
  blanks : joined (split s.value) = s.value
  paths : s.Unchanged s.value
  option : ∀ word ∈ (split s.value).head?, isOption word = false

/-- the words of the lines that are found -/
def Setting.words (s : Setting) (pattern : Chars) (entries : List (Chars × Chars)) : List Chars :=
  (entries.filter fun entry => s.tools.selects pattern (lineOf entry)).flatMap fun entry =>
    expand s.loc s.fs (front entry.2)

/-- K's line is found; no path has a blank or a `=` in it; and no line that is found gives options of echo, unless it is
found alone and names no paths -/
structure Setting.Definite (s : Setting) (pattern : Chars) : Prop where
  found : s.Found pattern
  names : s.fs.Named fun c => isSpace c = false ∧ c ≠ '='
  options : (∀ word ∈ s.words pattern s.entries, isOption word = false) ∨
    s.Alone pattern ∧ s.Unchanged (front s.value)

/-! ## What reaches echo -/

section
variable {s : Setting} {pattern : Chars}

/-- the second field of a line -/
theorem field_lineOf {entry : Chars × Chars} (h : '=' ∉ entry.1) : field '=' 2 (lineOf entry) = front entry.2 := by
  rw [lineOf, field_skip h (Or.inr rfl), field_one]
  rfl

theorem cat_file (h : dashed s.file = false) : cat s.tools s.fs [s.file] = s.text := by
  have hoperands : ([s.file].isEmpty || [s.file].any dashed) = false := by
    rw [List.any_cons, h]
    rfl
  rw [cat, hoperands, if_neg Bool.false_ne_true, List.flatMap_singleton, s.content]

/-- **What reaches `echo`, word by word.** -/
theorem readProperties_eq (h : s.Found pattern) :
    readProperties s.loc s.tools s.fs [s.file, s.key] = echo (s.words pattern s.entries) := by
  obtain ⟨hfile, hdash⟩ := h.reads
  obtain ⟨hpattern, hplain⟩ := h.asks
  have hcat : textLines (cat s.tools s.fs (expand s.loc s.fs
      ((expand s.loc s.fs s.file ++ expand s.loc s.fs s.key).getD 0 []))) = s.entries.map lineOf := by
    rw [hfile, List.singleton_append, List.getD_cons_zero, hfile, cat_file hdash, s.lines]
  have hgrep : grep s.tools s.fs s.patterns (s.entries.map lineOf) =
      (s.entries.filter fun entry => s.tools.selects pattern (lineOf entry)).map lineOf := by
    rw [hpattern, grep, hplain, if_neg Bool.false_ne_true, List.filter_map]
    rfl
  have hfields : ∀ entry ∈ s.entries.filter fun entry => s.tools.selects pattern (lineOf entry),
      expand s.loc s.fs (field '=' 2 (lineOf entry)) = expand s.loc s.fs (front entry.2) := by
    intro entry hentry
    rw [field_lineOf (s.keys entry (List.mem_of_mem_filter hentry))]
  have hvalue : getProperty s.loc s.tools s.fs (expand s.loc s.fs s.file ++ expand s.loc s.fs s.key) =
      subst (cut '=' 2 ((s.entries.filter fun entry => s.tools.selects pattern (lineOf entry)).map lineOf)) := by
    rw [getProperty, hcat, ← hgrep]
    rfl
  have hcall : readProperties s.loc s.tools s.fs [s.file, s.key] = echo (expand s.loc s.fs
      (getProperty s.loc s.tools s.fs (expand s.loc s.fs s.file ++ expand s.loc s.fs s.key))) :=
    if_neg (Nat.succ_ne_zero 1)
  rw [hcall, hvalue, expand_subst, cut, List.map_map, List.flatMap_map, Setting.words]
  exact congrArg echo (List.flatMap_congr hfields)

theorem words_append (a b : List (Chars × Chars)) :
    s.words pattern (a ++ b) = s.words pattern a ++ s.words pattern b := by
  rw [Setting.words, List.filter_append, List.flatMap_append]
  rfl

theorem words_eq_nil {entries : List (Chars × Chars)} : s.words pattern entries = [] ↔
    ∀ entry ∈ entries, s.tools.selects pattern (lineOf entry) = true → split (front entry.2) = [] := by
  rw [Setting.words, List.flatMap_eq_nil_iff]
  refine ⟨fun h entry hmem hfound => ?_, fun h entry hmem => ?_⟩
  · exact expand_eq_nil.1 (h entry (List.mem_filter.2 ⟨hmem, hfound⟩))
  · obtain ⟨hmem, hfound⟩ := List.mem_filter.1 hmem
    exact expand_eq_nil.2 (h entry hmem hfound)

/-- the words of the line itself -/
theorem words_own (h : s.Found pattern) :
    s.words pattern [(s.key, s.value)] = expand s.loc s.fs (front s.value) := by
  rcases h.finds with hempty | hfound
  · have hnil : expand s.loc s.fs (front s.value) = [] := by
      rw [hempty]
      exact expand_eq_nil.2 split_nil
    rw [hnil, words_eq_nil]
    intro entry hentry _
    rw [List.mem_singleton.1 hentry, hempty]
    exact split_nil
  · have hkept : [(s.key, s.value)].filter (fun entry => s.tools.selects pattern (lineOf entry)) =
        [(s.key, s.value)] := List.filter_cons_of_pos hfound
    rw [Setting.words, hkept, List.flatMap_singleton]

/-- the words of the other lines stand before and after them -/
theorem words_around (h : s.Found pattern) : ∃ before after,
    s.words pattern s.entries = before ++ expand s.loc s.fs (front s.value) ++ after ∧
      (s.Alone pattern ↔ before = [] ∧ after = []) := by
  obtain ⟨a, b, hentries⟩ := List.append_of_mem s.mem
  have hother : ∀ entry ∈ a ++ b, entry.1 ≠ s.key := by
    have hnodup := s.nodup
    rw [hentries, List.map_append, List.map_cons, List.nodup_middle, ← List.map_append] at hnodup
    intro entry hentry he
    exact (List.nodup_cons.1 hnodup).1 (List.mem_map.2 ⟨entry, hentry, he⟩)
  have hmem : ∀ entry, entry ∈ s.entries ↔ entry = (s.key, s.value) ∨ entry ∈ a ++ b := by
    intro entry
    rw [hentries, List.mem_append, List.mem_append, List.mem_cons, or_left_comm]
  have halone : s.Alone pattern ↔ s.words pattern (a ++ b) = [] := by
    rw [words_eq_nil]
    constructor
    · intro halone entry hentry
      exact halone entry ((hmem entry).2 (Or.inr hentry)) (hother entry hentry)
    · intro hnil entry hentry hne
      rcases (hmem entry).1 hentry with rfl | hentry
      · exact absurd rfl hne
      · exact hnil entry hentry
  refine ⟨s.words pattern a, s.words pattern b, ?_, ?_⟩
  · rw [hentries, words_append, ← List.singleton_append (x := (s.key, s.value)), words_append, words_own h,
      List.append_assoc]
  · rw [halone, words_append, List.append_eq_nil_iff]

end

/-! ## When the value is printed -/

section
variable {s : Setting} {pattern : Chars}

theorem front_self {value : Chars} (h : '=' ∉ value) : front value = value := by
  rw [front, List.takeWhile_eq_self_iff]
  exact fun c hc => decide_eq_true fun he => h (he ▸ hc)

theorem front_mem {value : Chars} : ∀ c ∈ front value, c ≠ '=' ∧ c ∈ value := by
  intro c hc
  have hkept := List.mem_takeWhile_imp (p := fun c => decide (c ≠ '=')) hc
  exact ⟨of_decide_eq_true hkept, (List.takeWhile_prefix _).subset hc⟩

/-- words that stay as they are -/
theorem expand_unchanged {text : Chars} (h : s.Unchanged text) : expand s.loc s.fs text = split text := by
  calc expand s.loc s.fs text
    _ = (split text).flatMap fun word => [word] := List.flatMap_congr h
    _ = split text := List.flatMap_singleton' _

theorem words_alone (hfound : s.Found pattern) (halone : s.Alone pattern) (hpaths : s.Unchanged (front s.value)) :
    s.words pattern s.entries = split (front s.value) := by
  obtain ⟨before, after, hwords, hiff⟩ := words_around hfound
  obtain ⟨rfl, rfl⟩ := hiff.1 halone
  rw [hwords, List.nil_append, List.append_nil, expand_unchanged hpaths]

/-- **Where only its line is found, a value is printed that is words with single blanks.** -/
theorem clean_right (h : s.Clean pattern) : s.Right := by
  have hfront := front_self h.delimiter
  have hwords := words_alone h.found h.alone (hfront.symm ▸ h.paths)
  rw [hfront] at hwords
  rw [Setting.Right, readProperties_eq h.found, hwords, echo_plain h.option, h.blanks]

/-- a value that begins with an option is printed too short -/
theorem option_wrong (hfound : s.Found pattern) (halone : s.Alone pattern) (hpaths : s.Unchanged (front s.value))
    (hright : s.Right) : ∀ word ∈ (split (front s.value)).head?, isOption word = false := by
  intro word hword
  by_contra hoption
  rw [Bool.not_eq_false] at hoption
  obtain ⟨rest, hsplit⟩ := List.head?_eq_some_iff.1 hword
  have hlength := congrArg List.length hright
  have hshort := echo_option hoption rest
  have hsize := split_size (front s.value)
  have hfront : (front s.value).length ≤ s.value.length := (List.takeWhile_prefix _).length_le
  rw [readProperties_eq hfound, words_alone hfound halone hpaths, hsplit, List.length_append] at hlength
  rw [hsplit] at hsize
  omega

/-- words are made of the characters of values and of names -/
theorem words_chars {P : Char → Prop} (hnamed : s.fs.Named P) (hslash : P '/')
    (h : ∀ entry ∈ s.entries, ∀ c ∈ front entry.2, isSpace c = false → P c) :
    ∀ word ∈ s.words pattern s.entries, word ≠ [] ∧ ∀ c ∈ word, P c := by
  intro word hword
  obtain ⟨entry, hentry, hword⟩ := List.mem_flatMap.1 hword
  obtain ⟨w, hw, hword⟩ := List.mem_flatMap.1 hword
  obtain ⟨hne, hin⟩ := mem_split hw
  apply glob_word hnamed hslash hne ?_ hword
  exact fun c hc => h entry (List.mem_of_mem_filter hentry) c (hin c hc).2 (hin c hc).1

/-- what is joined from words without `=` is one of them, as far as `=` goes -/
theorem delimiter_joined {words : List Chars} (h : ∀ word ∈ words, '=' ∉ word) : '=' ∉ joined words := by
  intro hmem
  rcases of_mem_intercalate hmem with hblank | ⟨word, hword, hmem⟩
  · cases List.mem_singleton.1 hblank
  · exact h word hword hmem

/-- where no word is an option, the words of the value are those that are printed, and all of them are its own -/
theorem clean_of_words (hfound : s.Found pattern) (hnames : s.fs.Named fun c => isSpace c = false ∧ c ≠ '=')
    (hoptions : ∀ word ∈ s.words pattern s.entries, isOption word = false) (hright : s.Right) : s.Clean pattern := by
  obtain ⟨before, after, hwords, hiff⟩ := words_around hfound
  have hchars : ∀ word ∈ s.words pattern s.entries, word ≠ [] ∧ ∀ c ∈ word, isSpace c = false ∧ c ≠ '=' :=
    words_chars hnames ⟨rfl, by decide⟩ fun entry _ c hc hspace => ⟨hspace, (front_mem c hc).1⟩
  rw [Setting.Right, readProperties_eq hfound,
    echo_plain fun word hword => hoptions word (List.mem_of_mem_head? hword)] at hright
  have hjoined : joined (s.words pattern s.entries) = s.value := List.append_cancel_right hright
  have hdelimiter : '=' ∉ s.value := by
    rw [← hjoined]
    exact delimiter_joined fun word hword hmem => ((hchars word hword).2 '=' hmem).2 rfl
  have hsplit : split s.value = s.words pattern s.entries := by
    rw [← hjoined]
    exact split_joined fun word hword => ⟨(hchars word hword).1, fun c hc => ((hchars word hword).2 c hc).1⟩
  have hself := hsplit
  rw [hwords, front_self hdelimiter, expand] at hself
  obtain ⟨hbefore, hafter, hpaths⟩ := glob_words hself.symm
  have hblanks : joined (split s.value) = s.value := by rw [hsplit, hjoined]
  refine ⟨hfound, hiff.2 ⟨hbefore, hafter⟩, hdelimiter, hblanks, hpaths, fun word hword => hoptions word ?_⟩
  rw [← hsplit]
  exact List.mem_of_mem_head? hword

/-- where the line is found alone and names no paths, its words are printed -/
theorem clean_of_alone (hfound : s.Found pattern) (halone : s.Alone pattern) (hpaths : s.Unchanged (front s.value))
    (hright : s.Right) : s.Clean pattern := by
  have hoption := option_wrong hfound halone hpaths hright
  rw [Setting.Right, readProperties_eq hfound, words_alone hfound halone hpaths, echo_plain hoption] at hright
  have hjoined : joined (split (front s.value)) = s.value := List.append_cancel_right hright
  have hdelimiter : '=' ∉ s.value := by
    rw [← hjoined]
    exact delimiter_joined fun word hword hmem => (front_mem '=' ((mem_split hword).2 '=' hmem).2).1 rfl
  rw [front_self hdelimiter] at hjoined hpaths hoption
  exact ⟨hfound, halone, hdelimiter, hjoined, hpaths, hoption⟩

/-- **The value is printed only then.** -/
theorem right_clean (h : s.Definite pattern) (hright : s.Right) : s.Clean pattern := by
  rcases h.options with hoptions | ⟨halone, hpaths⟩
  · exact clean_of_words h.found h.names hoptions hright
  · exact clean_of_alone h.found halone hpaths hright

/-! ## Keys of letters and digits -/

theorem plain_alphanum {c : Char} (h : c.isAlphanum = true) : plainChar c = true ∧ c ≠ '-' := by
  have hne : ∀ d : Char, d.isAlphanum = false → c ≠ d := by
    rintro d hd rfl
    rw [hd] at h
    cases h
  refine ⟨plainChar_iff.2 ⟨?_, hne _ rfl, hne _ rfl, hne _ rfl, hne _ rfl⟩, hne _ rfl⟩
  simp [isSpace, hne ' ' rfl, hne '\t' rfl, hne '\n' rfl]

/-- **A key of letters and digits finds its line.** -/
theorem literal_found (hfile : expand s.loc s.fs s.file = [s.file] ∧ dashed s.file = false) (hne : s.key ≠ [])
    (hkey : ∀ c ∈ s.key, c.isAlphanum = true) : s.Found s.key := by
  have hexpand : expand s.loc s.fs s.key = [s.key] := expand_plain hne fun c hc => (plain_alphanum (hkey c hc)).1
  have hpatterns : s.patterns = [s.key] := by
    rw [Setting.patterns, hfile.1, hexpand]
    exact hexpand
  have hdash : dashed s.key = false := by
    obtain ⟨c, rest, hcons⟩ := List.exists_cons_of_ne_nil hne
    have hc := (plain_alphanum (hkey c (hcons ▸ List.mem_cons_self))).2
    rw [hcons, dashed, List.head?_cons]
    simpa using hc
  refine ⟨hfile, ⟨hpatterns, hdash⟩, Or.inr ?_⟩
  exact (s.tools.literal _ _ hkey).2 (List.prefix_append _ _).isInfix

/-- **But with it every other line that contains it.** -/
theorem contained_wrong (hkey : ∀ c ∈ s.key, c.isAlphanum = true) (h : s.Definite s.key) {entry : Chars × Chars}
    (hentry : entry ∈ s.entries) (hne : entry.1 ≠ s.key) (hcontains : s.key <:+: lineOf entry)
    (hwords : split (front entry.2) ≠ []) : ¬ s.Right := by
  intro hright
  exact hwords ((right_clean h hright).alone entry hentry hne ((s.tools.literal _ _ hkey).2 hcontains))

/-- **A property is read iff its line is the only one that is found, and its value is printed as it is.** The second
part needs that the line is found and that no accident makes up the value. -/
theorem read_property_iff (s : Setting) :
    (∀ pattern, s.Clean pattern → s.Right) ∧ ∀ pattern, s.Definite pattern → (s.Right ↔ s.Clean pattern) :=
  ⟨fun _ => clean_right, fun _ h => ⟨right_clean h, clean_right⟩⟩

end

/-! ## A key that is part of another -/

/-- the characters of the pattern, wherever they stand -/
def literalTools : Tools where
  selects pattern line := decide (pattern <:+: line)
  literal _ _ _ := decide_eq_true_iff
  grep _ _ _ := []
  cat _ _ := []

/-- a directory with one file, and a key of its two -/
def twoLines (key value : Chars) (h : (key, value) ∈ [("a".toList, "1".toList), ("ab".toList, "x y".toList)]) :
    Setting where
  loc := plainLocale
  tools := literalTools
  fs := ⟨[], [([['p']], .file "a=1\nab=x y\n".toList)]⟩
  file := ['p']
  key := key
  value := value
  entries := [("a".toList, "1".toList), ("ab".toList, "x y".toList)]
  keys := by decide
  nodup := by decide
  text := "a=1\nab=x y\n".toList
  content := by decide
  lines := by decide
  mem := h

section
variable {key value : Chars} (h : (key, value) ∈ [("a".toList, "1".toList), ("ab".toList, "x y".toList)])

theorem twoLines_file : expand plainLocale (twoLines key value h).fs ['p'] = [['p']] ∧ dashed ['p'] = false := by
  refine ⟨expand_plain (List.cons_ne_nil _ _) fun c hc => ?_, rfl⟩
  rw [List.mem_singleton.1 hc]
  rfl

theorem twoLines_named {P : Char → Prop} (hp : P 'p') : (twoLines key value h).fs.Named P := by
  intro e he name hname
  obtain rfl := List.mem_singleton.1 he
  obtain rfl := List.mem_singleton.1 hname
  exact ⟨List.cons_ne_nil _ _, fun c hc => List.mem_singleton.1 hc ▸ hp⟩

end

/-- the longer key is read -/
theorem longer_read : (twoLines "ab".toList "x y".toList (by decide)).Right := by
  apply (read_property_iff _).1 "ab".toList
  have hfound := literal_found (s := twoLines "ab".toList "x y".toList (by decide)) (twoLines_file _)
    (List.cons_ne_nil _ _) (List.all_eq_true.1 rfl)
  refine ⟨hfound, ?_, by decide, by decide, ?_, by decide⟩
  · intro entry hentry hne hfound
    rcases List.mem_cons.1 hentry with rfl | hentry
    · exact absurd hfound (by decide)
    · rw [List.mem_singleton.1 hentry] at hne
      exact absurd rfl hne
  · intro word hword
    have hplain : ∀ c ∈ "x y".toList, (isSpace c || plainChar c) = true := List.all_eq_true.1 rfl
    apply glob_plain
    intro c hc
    obtain ⟨hspace, hc⟩ := (mem_split hword).2 c hc
    exact (Bool.or_eq_true_iff.1 (hplain c hc)).resolve_left (Bool.eq_false_iff.1 hspace)

/-- the shorter one comes with both values -/
theorem shorter_wrong : ¬ (twoLines "a".toList "1".toList (by decide)).Right := by
  have hkey : ∀ c ∈ "a".toList, c.isAlphanum = true := List.all_eq_true.1 rfl
  have hvalues : ∀ value ∈ ["1".toList, "x y".toList], ∀ c ∈ front value, c ≠ '-' := by
    intro value hvalue c hc he
    rcases List.mem_cons.1 hvalue with rfl | hvalue
    · exact absurd (he ▸ (front_mem c hc).2) (by decide)
    · rw [List.mem_singleton.1 hvalue] at hc
      exact absurd (he ▸ (front_mem c hc).2) (by decide)
  have hdash : ∀ word ∈ (twoLines "a".toList "1".toList (by decide)).words "a".toList
      (twoLines "a".toList "1".toList (by decide)).entries, word ≠ [] ∧ ∀ c ∈ word, c ≠ '-' :=
    words_chars (twoLines_named _ (by decide)) (by decide) fun entry hentry c hc _ =>
      hvalues entry.2 (List.mem_map_of_mem hentry) c hc
  have hdefinite : (twoLines "a".toList "1".toList (by decide)).Definite "a".toList := by
    refine ⟨literal_found (twoLines_file _) (List.cons_ne_nil _ _) hkey, twoLines_named _ ⟨rfl, by decide⟩, Or.inl ?_⟩
    exact fun word hword => not_option fun hmem => (hdash word hword).2 '-' hmem rfl
  have hprefix : "a".toList <:+: lineOf ("ab".toList, "x y".toList) := ⟨[], "b=x y".toList, rfl⟩
  exact contained_wrong hkey hdefinite (List.mem_cons_of_mem _ List.mem_cons_self) (by decide) hprefix (by decide)

end IconSetup.ReadProperties
