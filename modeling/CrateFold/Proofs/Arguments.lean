import CrateFold.Cli.Options
import CrateFold.Proofs.Outcomes
import Mathlib.Data.List.Basic
import Mathlib.Data.List.TakeWhile

/-!
What an argument asks for by itself. It spells options, by the name of one or by letters behind a dash (`Word`), it can be
the value of an option (`Plain`), it is neither (`Stray`), or it has a name that several options have
(`Ambiguous`). These are all arguments (`word_cases`), and an argument is classified and read accordingly
(`ReadAsWord`).
-/
namespace CrateFold.Cli

/-! ### Options and their spellings -/

/-- The name of an option. -/
def Flag.name : Flag → List Char
  | .help => ['-', '-', 'h', 'e', 'l', 'p']
  | .bin => ['-', '-', 'b', 'i', 'n']
  | .crateDir => ['-', '-', 'c', 'r', 'a', 't', 'e', '-', 'd', 'i', 'r']
  | .root => ['-', '-', 'r', 'o', 'o', 't']
  | .prune => ['-', '-', 'p', 'r', 'u', 'n', 'e']
  | .output => ['-', '-', 'o', 'u', 't', 'p', 'u', 't']
  | .verbose => ['-', '-', 'v', 'e', 'r', 'b', 'o', 's', 'e']

/-- The options that have a letter. -/
inductive Letter : Char → Flag → Prop where
  | help : Letter 'h' .help
  | output : Letter 'o' .output
  | verbose : Letter 'v' .verbose

/-- The options that have a value. -/
inductive Valued : Flag → Prop where
  | crateDir : Valued .crateDir
  | root : Valued .root
  | output : Valued .output

/-- A text starts the name of an option, and of no other one. -/
def Abbreviates (text : List Char) (flag : Flag) : Prop :=
  ['-', '-'] <+: text ∧ ∀ other : Flag, text <+: other.name ↔ other = flag

variable {flag : Flag} {c : Char} {text rest : List Char}

theorem takesValue_iff : flag.takesValue = true ↔ Valued flag := by
  constructor
  · intro takes
    cases flag with
    | crateDir => exact .crateDir
    | root => exact .root
    | output => exact .output
    | _ => cases takes
  · rintro (_ | _ | _) <;> rfl

theorem takesValue_of_bare (bare : ¬ Valued flag) : flag.takesValue = false := by
  rw [← takesValue_iff] at bare
  simpa using bare

theorem Letter.flag_unique {other : Flag} (letter : Letter c flag) (again : Letter c other) : other = flag := by
  cases letter <;> cases again <;> rfl

theorem equals_not_mem_name (flag : Flag) : '=' ∉ flag.name := by
  cases flag <;> decide

theorem spellingTable_eq : spellingTable = [("-h", .help), ("--help", .help), ("--bin", .bin), ("--crate-dir", .crateDir),
    ("--root", .root), ("--prune", .prune), ("-o", .output), ("--output", .output), ("-v", .verbose),
    ("--verbose", .verbose)] := rfl

/-- A text is a spelling if it is a name, or a dash and a letter. -/
theorem exactly_eq_some_iff : exactly text = some flag ↔ text = flag.name ∨ ∃ c, text = ['-', c] ∧ Letter c flag := by
  constructor
  · intro found
    obtain ⟨before, after, split, -⟩ := List.lookup_eq_some_iff.mp found
    have listed : (String.ofList text, flag) ∈ spellingTable := by simp [split]
    have spelled : ∀ spelling : String, String.ofList text = spelling → text = spelling.toList := by
      rintro _ rfl
      simp
    rw [spellingTable_eq] at listed
    simp only [List.mem_cons, Prod.mk.injEq, List.not_mem_nil, or_false] at listed
    rcases listed with ⟨same, rfl⟩ | ⟨same, rfl⟩ | ⟨same, rfl⟩ | ⟨same, rfl⟩ | ⟨same, rfl⟩ | ⟨same, rfl⟩ | ⟨same, rfl⟩ |
      ⟨same, rfl⟩ | ⟨same, rfl⟩ | ⟨same, rfl⟩
    · exact .inr ⟨'h', spelled _ same, .help⟩
    · exact .inl (spelled _ same)
    · exact .inl (spelled _ same)
    · exact .inl (spelled _ same)
    · exact .inl (spelled _ same)
    · exact .inl (spelled _ same)
    · exact .inr ⟨'o', spelled _ same, .output⟩
    · exact .inl (spelled _ same)
    · exact .inr ⟨'v', spelled _ same, .verbose⟩
    · exact .inl (spelled _ same)
  · rintro (rfl | ⟨c, rfl, letter⟩)
    · cases flag <;> rfl
    · cases letter <;> rfl

theorem exactly_letter_iff : exactly ['-', c] = some flag ↔ Letter c flag := by
  rw [exactly_eq_some_iff]
  constructor
  · rintro (same | ⟨_, same, letter⟩)
    · cases flag <;> simp [Flag.name] at same
    · obtain rfl : c = _ := by simpa using same
      exact letter
  · exact fun letter => .inr ⟨c, rfl, letter⟩

/-- What starts with two dashes is a spelling if it is a name. -/
theorem exactly_long_iff : exactly ('-' :: '-' :: rest) = some flag ↔ '-' :: '-' :: rest = flag.name := by
  rw [exactly_eq_some_iff]
  constructor
  · rintro (same | ⟨c, same, letter⟩)
    · exact same
    · obtain ⟨rfl, -⟩ : '-' = c ∧ rest = [] := by simpa using same
      cases letter
  · exact .inl

/-! ### Texts before and after the first `=` -/

/-- The part of a text before its first `=`, and the part behind it if there is one. -/
inductive Parted : List Char → List Char → Option (List Char) → Prop where
  | bare {name : List Char} (plain : '=' ∉ name) : Parted name name none
  | assigned {name value : List Char} (plain : '=' ∉ name) : Parted (name ++ '=' :: value) name (some value)

variable {name value : List Char}

theorem parted_splitAssignment (s : List Char) : Parted s (splitAssignment s).1 (splitAssignment s).2 := by
  unfold splitAssignment
  have before : '=' ∉ s.takeWhile (· != '=') := by
    intro member
    simpa using List.mem_takeWhile_imp member
  have whole := List.takeWhile_append_dropWhile (p := (· != '=')) (l := s)
  cases rest : s.dropWhile (· != '=') with
  | nil =>
    rw [rest, List.append_nil] at whole
    rw [whole] at before
    exact .bare before
  | cons first value =>
    have found : first = '=' := by
      have := List.head_dropWhile_not (· != '=') (by simp [rest] : s.dropWhile (· != '=') ≠ [])
      simpa [rest] using this
    subst found
    rw [rest] at whole
    conv => arg 1; rw [← whole]
    exact .assigned before

theorem splitAssignment_of_parted {s : List Char} {value : Option (List Char)} (parted : Parted s name value) :
    splitAssignment s = (name, value) := by
  have before : ∀ {name : List Char}, '=' ∉ name → ∀ c ∈ name, (c != '=') = true := by
    rintro name plain c member
    simp only [bne_iff_ne]
    rintro rfl
    exact plain member
  unfold splitAssignment
  cases parted with
  | bare plain => rw [List.dropWhile_eq_nil_iff.mpr (before plain)]
  | assigned plain =>
    rw [List.dropWhile_append_of_pos (before plain), List.takeWhile_append_of_pos (before plain)]
    simp

/-! ### How an argument is classified -/

/-- The names that a text starts, each with its option. -/
theorem abbreviated_eq (long : ['-', '-'] <+: name) : ∃ found : List Flag, found.Nodup ∧
    (∀ flag, flag ∈ found ↔ name <+: flag.name) ∧ abbreviated name = found.map fun flag => (String.ofList flag.name, flag) := by
  refine ⟨Flag.all.filter fun flag => name.isPrefixOf flag.name, .filter _ (by decide), ?_, ?_⟩
  · intro flag
    have all : flag ∈ Flag.all := by cases flag <;> decide
    simp [all]
  · -- no text that starts with two dashes starts a dash and a letter
    obtain ⟨rest, rfl⟩ := long
    have names : spellingTable.filter (fun entry => 2 < entry.1.toList.length) = Flag.all.map fun flag => (String.ofList flag.name, flag) := by
      decide
    have short : ∀ entry ∈ spellingTable, (['-', '-'] ++ rest).isPrefixOf entry.1.toList =
        ((['-', '-'] ++ rest).isPrefixOf entry.1.toList && decide (2 < entry.1.toList.length)) := by
      simp [spellingTable_eq]
    rw [abbreviated, List.filter_congr short, ← List.filter_filter, names, List.filter_map]
    simp [Function.comp_def]

variable {s : List Char}

/-- An abbreviation stands for its option, with the text after `=` as its value. -/
theorem classifyLong_of_abbreviates {value : Option (List Char)} (parted : Parted s name value) (abbreviates : Abbreviates name flag) :
    classifyLong s = .ok (value.elim (.option flag) (.attached flag .named)) := by
  obtain ⟨found, once, listed, table⟩ := abbreviated_eq abbreviates.1
  obtain rfl : found = [flag] := by
    have only : ∀ other, other ∈ found ↔ other ∈ [flag] := fun other => by simp [listed, abbreviates.2 other]
    exact List.perm_singleton.mp ((List.perm_ext_iff_of_nodup once (by simp)).mpr only)
  unfold classifyLong
  rw [splitAssignment_of_parted parted]
  simp only [table, List.map_cons, List.map_nil]
  cases value <;> rfl

theorem classifyLong_of_foreign {value : Option (List Char)} (long : ['-', '-'] <+: name) (parted : Parted s name value)
    (none : ∀ flag : Flag, ¬ name <+: flag.name) : classifyLong s = .ok (unspelled s) := by
  obtain ⟨found, -, listed, table⟩ := abbreviated_eq long
  obtain rfl : found = [] := List.eq_nil_iff_forall_not_mem.mpr fun flag member => none flag ((listed flag).mp member)
  unfold classifyLong
  rw [splitAssignment_of_parted parted]
  simp only [table, List.map_nil]

theorem classifyLong_of_ambiguous {value : Option (List Char)} {one other : Flag} (long : ['-', '-'] <+: name)
    (parted : Parted s name value) (different : one ≠ other) (first : name <+: one.name) (second : name <+: other.name) :
    ∃ message, classifyLong s = .error (.misuse message) := by
  obtain ⟨found, -, listed, table⟩ := abbreviated_eq long
  unfold classifyLong
  rw [splitAssignment_of_parted parted]
  simp only [table]
  rw [← listed] at first second
  match found, first, second with
  | [only], first, second => exact absurd ((List.mem_singleton.mp first).trans (List.mem_singleton.mp second).symm) different
  | _ :: _ :: _, _, _ => exact ⟨_, rfl⟩

/-- What starts with two dashes is told by its name. -/
theorem classify_long (rest : List Char) : classify (String.ofList ('-' :: '-' :: rest)) = classifyLong ('-' :: '-' :: rest) := by
  have named : ∀ flag : Flag, Abbreviates flag.name flag := by
    intro flag
    refine ⟨?_, fun other => ?_⟩
    · cases flag <;> decide
    · cases flag <;> cases other <;> decide
  unfold classify
  simp only [String.toList_ofList]
  cases whole : exactly ('-' :: '-' :: rest) with
  | some flag =>
    have same := exactly_long_iff.mp whole
    have parted : Parted flag.name flag.name none := .bare (equals_not_mem_name flag)
    rw [same, classifyLong_of_abbreviates parted (named flag)]
    rfl
  | none =>
    have parted := parted_splitAssignment ('-' :: '-' :: rest)
    generalize splitAssignment ('-' :: '-' :: rest) = parts at parted ⊢
    rcases parts with ⟨name, _ | value⟩
    · rfl
    · dsimp only at parted ⊢
      cases spelled : exactly name with
      | none => rfl
      | some flag =>
        rcases exactly_eq_some_iff.mp spelled with rfl | ⟨c, rfl, letter⟩
        · rw [classifyLong_of_abbreviates parted (named flag)]
          cases flag <;> rfl
        · -- a letter is no second dash
          generalize whole : '-' :: '-' :: rest = s at parted
          cases parted
          obtain ⟨rfl, -⟩ : '-' = c ∧ _ := by simpa using whole
          cases letter

theorem Parted.prefix_self {value : Option (List Char)} (parted : Parted s name value) : name <+: s := by
  cases parted with
  | bare => exact List.prefix_rfl
  | assigned => exact List.prefix_append ..

/-- What is no spelling, and has none before its first `=`, is told by its dashes. -/
theorem classify_eq_spelled (whole : exactly s = none) (named : ∀ name value, Parted s name (some value) → exactly name = none) :
    classify (String.ofList s) = classify.spelled s := by
  unfold classify
  simp only [String.toList_ofList]
  have parted := parted_splitAssignment s
  rw [whole]
  generalize splitAssignment s = parts at parted ⊢
  rcases parts with ⟨name, _ | value⟩
  · rfl
  · dsimp only at parted ⊢
    rw [named name value parted]

/-- What starts with a dash and another character starts with no spelling but that of a letter. -/
theorem exactly_beginning (other : c ≠ '-') (start : name <+: '-' :: c :: rest) (spelled : exactly name = some flag) :
    name = ['-', c] ∧ Letter c flag := by
  rcases exactly_eq_some_iff.mp spelled with rfl | ⟨c, rfl, letter⟩
  · cases flag <;> simp [Flag.name, Ne.symm other] at start
  · obtain rfl : c = _ := by simpa using start
    exact ⟨rfl, letter⟩

/-- What a letter stands for, by what comes behind it. -/
def behind (flag : Flag) : List Char → Argument
  | [] => .option flag
  | '=' :: value => .attached flag .assigned value
  | text => .attached flag .direct text

theorem behind_direct {first : Char} {more : List Char} (other : first ≠ '=') :
    behind flag (first :: more) = .attached flag .direct (first :: more) := by
  unfold behind
  split
  · simp_all
  · simp_all
  · rfl

theorem classify_of_letter (letter : Letter c flag) (text : List Char) :
    classify (String.ofList ('-' :: c :: text)) = .ok (behind flag text) := by
  have other : c ≠ '-' := by cases letter <;> decide
  have plain : '=' ∉ ['-', c] := by cases letter <;> decide
  have spelled := exactly_letter_iff.mpr letter
  match text with
  | [] => simp only [classify, String.toList_ofList, spelled, behind]
  | first :: more =>
    have whole : exactly ('-' :: c :: first :: more) = none := by
      refine Option.eq_none_iff_forall_ne_some.mpr fun flag found => ?_
      cases (exactly_beginning other List.prefix_rfl found).1
    by_cases equals : first = '='
    · subst equals
      have parts : splitAssignment ('-' :: c :: '=' :: more) = (['-', c], some more) := splitAssignment_of_parted (.assigned plain)
      simp only [classify, String.toList_ofList, whole, parts, spelled, behind]
      rfl
    · rw [behind_direct equals, classify_eq_spelled whole, classify.spelled.eq_2, classifyShort]
      · simp only [List.take, spelled, List.drop]
      · simpa using other
      · intro name value parted
        refine Option.eq_none_iff_forall_ne_some.mpr fun flag found => ?_
        have start := (exactly_beginning other parted.prefix_self found).1
        generalize same : '-' :: c :: first :: more = s at parted
        cases parted
        rw [start] at same
        exact equals (List.cons.inj (List.cons.inj (List.cons.inj same).2).2).1

theorem classify_of_no_letter (other : c ≠ '-') (none : ∀ flag, ¬ Letter c flag) (text : List Char) :
    classify (String.ofList ('-' :: c :: text)) = .ok (unspelled ('-' :: c :: text)) := by
  have unknown : ∀ name, name <+: '-' :: c :: text → exactly name = .none := by
    intro name start
    exact Option.eq_none_iff_forall_ne_some.mpr fun flag found => none flag (exactly_beginning other start found).2
  have short : classify.spelled ('-' :: c :: text) = .ok (unspelled ('-' :: c :: text)) := by
    rw [classify.spelled.eq_2, classifyShort]
    · rw [unknown _ (List.take_prefix ..)]
    · simpa using other
  rw [classify_eq_spelled (unknown _ List.prefix_rfl) fun name value parted => unknown _ parted.prefix_self, short]

/-- What is no dash with something behind it is a value. -/
theorem classify_of_no_dash (plain : ∀ c text, s ≠ '-' :: c :: text) : classify (String.ofList s) = .ok .value := by
  have unknown : ∀ name, name <+: s → exactly name = none := by
    rintro name ⟨more, rfl⟩
    refine Option.eq_none_iff_forall_ne_some.mpr fun flag found => ?_
    rcases exactly_eq_some_iff.mp found with rfl | ⟨c, rfl, -⟩
    · cases flag <;> exact plain _ _ rfl
    · exact plain _ _ rfl
  have value : classify.spelled s = .ok .value := by
    unfold classify.spelled
    split
    · exact absurd rfl (plain _ _)
    · exact absurd rfl (plain _ _)
    · rfl
  rw [classify_eq_spelled (unknown _ List.prefix_rfl) fun name value parted => unknown _ parted.prefix_self, value]

/-! ### Letters behind a dash -/

/-- The value that the text behind a letter gives to the option of the letter; `first` says whether this is the first
letter of the argument. -/
inductive Attaches (convention : Convention) : Bool → List Char → List Char → Prop where
  | direct {first : Bool} {d : Char} {more : List Char} (other : d ≠ '=') : Attaches convention first (d :: more) (d :: more)
  | assigned {first : Bool} {value : List Char} (allowed : first = true ∨ convention = .assigning) :
      Attaches convention first ('=' :: value) value
  | literal {value : List Char} (lettered : convention = .lettered) : Attaches convention false ('=' :: value) ('=' :: value)

/-- The letters that come behind one without value. -/
inductive Follows (convention : Convention) : Bool → List Char → List Char → Prop where
  | next {first : Bool} {text : List Char} : Follows convention first text text
  | skip {text : List Char} (lettered : convention = .lettered) : Follows convention true ('=' :: text) text

/-- What the letters behind a dash ask for. -/
inductive Cluster (convention : Convention) : Bool → List Char → Reading → Prop where
  | switch {first : Bool} {c : Char} {flag : Flag} (letter : Letter c flag) (bare : ¬ Valued flag) :
      Cluster convention first [c] { settings := [(flag, "")] }
  | owing {first : Bool} {c : Char} {flag : Flag} (letter : Letter c flag) (valued : Valued flag) :
      Cluster convention first [c] { owed := some flag }
  | value {first : Bool} {c : Char} {flag : Flag} {text value : List Char} (letter : Letter c flag) (valued : Valued flag)
      (attaches : Attaches convention first text value) :
      Cluster convention first (c :: text) { settings := [(flag, String.ofList value)] }
  | more {first : Bool} {c : Char} {flag : Flag} {text rest : List Char} {tail : Reading} (letter : Letter c flag)
      (bare : ¬ Valued flag) (follows : Follows convention first text rest) (others : Cluster convention false rest tail) :
      Cluster convention first (c :: text) { tail with settings := (flag, "") :: tail.settings }
  | stray {first : Bool} {c d : Char} {flag : Flag} {rest : List Char} (assigning : convention = .assigning)
      (letter : Letter c flag) (bare : ¬ Valued flag) (dash : d ≠ '-') (equals : d ≠ '=') (none : ∀ other, ¬ Letter d other) :
      Cluster convention first (c :: d :: rest) { settings := [(flag, "")], stray := [String.ofList ('-' :: d :: rest)] }

variable {convention : Convention} {first : Bool} {reading : Reading}

/-- Reads an option by the text behind its letter. -/
def readBehind (convention : Convention) (first : Bool) (flag : Flag) : List Char → Except Stop Reading
  | [] => .ok (readBare flag)
  | '=' :: value =>
    if first = true ∨ convention = .assigning then readAttached convention flag .assigned value
    else readAttached convention flag .direct ('=' :: value)
  | text => readAttached convention flag .direct text

theorem readBehind_direct (some : text ≠ []) (other : ∀ value, text ≠ '=' :: value) :
    readBehind convention first flag text = readAttached convention flag .direct text := by
  unfold readBehind
  split
  · contradiction
  · exact absurd rfl (other _)
  · rfl

theorem readBare_of_valued (valued : Valued flag) : readBare flag = { owed := some flag } :=
  if_pos (takesValue_iff.mpr valued)

theorem readBare_of_not_valued (bare : ¬ Valued flag) : readBare flag = { settings := [(flag, "")] } :=
  if_neg (by simp [takesValue_of_bare bare])

theorem reading?_behind (flag : Flag) (text : List Char) :
    consume.reading? convention (behind flag text) = some (readBehind convention true flag text) := by
  unfold behind readBehind
  split
  · rfl
  · rw [if_pos (.inl rfl)]
    rfl
  · rfl

theorem readAttached_nil (bare : ¬ Valued flag) (attachment : Attachment) :
    readAttached convention flag attachment [] = .error (.ignored flag []) := by
  rw [readAttached.eq_def]
  simp only [takesValue_of_bare bare, Bool.false_eq_true, if_false]

/-- An option without value is read with the options whose letters come behind it. -/
theorem readAttached_bare (bare : ¬ Valued flag) (attachment : Attachment) (d : Char) (rest : List Char) :
    readAttached convention flag attachment (d :: rest) =
      if convention.goesOn attachment d then
        match exactly ['-', d] with
        | none => readStray convention flag (d :: rest)
        | some next => do
          let tail ← readBehind convention false next rest
          return { tail with settings := (flag, "") :: tail.settings }
      else .error (.ignored flag (d :: rest)) := by
  rw [readAttached.eq_def]
  simp only [takesValue_of_bare bare, Bool.false_eq_true, if_false]
  cases convention.goesOn attachment d with
  | false => rfl
  | true =>
    simp only [Bool.not_true, Bool.false_eq_true, if_false, if_true]
    cases exactly ['-', d] with
    | none => rfl
    | some next =>
      dsimp only
      split
      · rfl
      · cases convention <;> rfl
      · next some other => rw [readBehind_direct some other]

theorem exactly_eq_none_iff : exactly ['-', c] = none ↔ ∀ flag, ¬ Letter c flag := by
  simp only [← exactly_letter_iff, Option.eq_none_iff_forall_ne_some, ne_eq]

theorem readAttached_valued (valued : Valued flag) (attachment : Attachment) (text : List Char) :
    readAttached convention flag attachment text = .ok { settings := [(flag, String.ofList text)] } := by
  have takes := takesValue_iff.mpr valued
  rw [readAttached.eq_def]
  cases text with
  | nil => simp only [takes, if_true, String.ofList_nil]
  | cons d more => simp only [takes, if_true]

theorem readBehind_valued (valued : Valued flag) (c : Char) (rest : List Char) :
    readBehind convention first flag (c :: rest) = .ok reading ↔
      ∃ value, Attaches convention first (c :: rest) value ∧ reading = { settings := [(flag, String.ofList value)] } := by
  have read : ∃ value, readBehind convention first flag (c :: rest) = .ok { settings := [(flag, String.ofList value)] } ∧
      ∀ other, Attaches convention first (c :: rest) other ↔ other = value := by
    by_cases equals : c = '='
    · subst equals
      by_cases assigned : first = true ∨ convention = .assigning
      · refine ⟨rest, by rw [readBehind, if_pos assigned, readAttached_valued valued], fun other => ⟨?_, ?_⟩⟩
        · rintro (_ | _ | lettered)
          · contradiction
          · rfl
          · simp [lettered] at assigned
        · rintro rfl
          exact .assigned assigned
      · refine ⟨'=' :: rest, by rw [readBehind, if_neg assigned, readAttached_valued valued], fun other => ⟨?_, ?_⟩⟩
        · rintro (_ | allowed | _)
          · contradiction
          · exact absurd allowed assigned
          · rfl
        · rintro rfl
          rw [not_or] at assigned
          obtain rfl : first = false := by simpa using assigned.1
          cases convention with
          | lettered => exact .literal rfl
          | assigning => exact absurd rfl assigned.2
    · have direct : readBehind convention first flag (c :: rest) = readAttached convention flag .direct (c :: rest) :=
        readBehind_direct (by simp) (by simp [equals])
      refine ⟨c :: rest, by rw [direct, readAttached_valued valued], fun other => ⟨?_, ?_⟩⟩
      · rintro (_ | _ | _)
        · rfl
        · contradiction
        · contradiction
      · rintro rfl
        exact .direct equals
  obtain ⟨value, read, only⟩ := read
  rw [read]
  constructor
  · rintro same
    exact ⟨value, (only value).mpr rfl, (Except.ok.inj same).symm⟩
  · rintro ⟨other, attaches, rfl⟩
    rw [(only other).mp attaches]

theorem readAttached_bare_iff (bare : ¬ Valued flag) (attachment : Attachment) (c : Char) (rest : List Char) :
    readAttached convention flag attachment (c :: rest) = .ok reading ↔ convention.goesOn attachment c = true ∧
      ((∃ next tail, Letter c next ∧ readBehind convention false next rest = .ok tail ∧
        reading = { tail with settings := (flag, "") :: tail.settings }) ∨
      convention = .assigning ∧ (∀ other, ¬ Letter c other) ∧
        reading = { settings := [(flag, "")], stray := [String.ofList ('-' :: c :: rest)] }) := by
  rw [readAttached_bare bare]
  cases goes : convention.goesOn attachment c with
  | false => simp
  | true =>
    simp only [if_true, true_and]
    cases found : exactly ['-', c] with
    | none =>
      have none := exactly_eq_none_iff.mp found
      cases convention with
      | lettered => simp [readStray, none]
      | assigning => simp [readStray, none, eq_comm]
    | some next =>
      have letter := exactly_letter_iff.mp found
      constructor
      · intro read
        obtain ⟨tail, read, same⟩ := bind_eq_ok.mp read
        exact .inl ⟨next, tail, letter, read, (Except.ok.inj same).symm⟩
      · rintro (⟨other, tail, again, read, rfl⟩ | ⟨-, none, -⟩)
        · obtain rfl := letter.flag_unique again
          exact bind_eq_ok.mpr ⟨tail, read, rfl⟩
        · exact absurd letter (none next)

theorem readBehind_bare_iff (bare : ¬ Valued flag) (c : Char) (rest : List Char) :
    readBehind convention first flag (c :: rest) = .ok reading ↔
      (∃ d more next tail, Follows convention first (c :: rest) (d :: more) ∧ Letter d next ∧
        readBehind convention false next more = .ok tail ∧
        reading = { tail with settings := (flag, "") :: tail.settings }) ∨
      convention = .assigning ∧ c ≠ '-' ∧ c ≠ '=' ∧ (∀ other, ¬ Letter c other) ∧
        reading = { settings := [(flag, "")], stray := [String.ofList ('-' :: c :: rest)] } := by
  have unlettered : ∀ next, ¬ Letter '=' next := by rintro _ (_ | _ | _)
  by_cases equals : c = '='
  · subst equals
    constructor
    · intro read
      left
      by_cases assigned : first = true ∨ convention = .assigning
      · rw [readBehind, if_pos assigned] at read
        cases rest with
        | nil =>
          rw [readAttached_nil bare] at read
          cases read
        | cons d more =>
          obtain ⟨goes, ⟨next, tail, letter, deeper, same⟩ | ⟨rfl, -⟩⟩ := (readAttached_bare_iff bare _ d more).mp read
          · cases convention with
            | lettered =>
              obtain rfl : first = true := by simpa using assigned
              exact ⟨d, more, next, tail, .skip rfl, letter, deeper, same⟩
            | assigning => cases goes
          · cases goes
      · rw [readBehind, if_neg assigned] at read
        obtain ⟨-, ⟨next, -, letter, -⟩ | ⟨rfl, -⟩⟩ := (readAttached_bare_iff bare _ '=' rest).mp read
        · exact absurd letter (unlettered next)
        · simp at assigned
    · rintro (⟨d, more, next, tail, follows, letter, deeper, rfl⟩ | ⟨-, -, other, -⟩)
      · cases follows with
        | next => exact absurd letter (unlettered next)
        | skip lettered =>
          rw [readBehind, if_pos (.inl rfl), readAttached_bare_iff bare]
          subst lettered
          exact ⟨rfl, .inl ⟨next, tail, letter, deeper, rfl⟩⟩
      · exact absurd rfl other
  · rw [readBehind_direct (by simp) (by simp [equals]), readAttached_bare_iff bare]
    constructor
    · rintro ⟨goes, ⟨next, tail, letter, deeper, same⟩ | ⟨rfl, none, same⟩⟩
      · exact .inl ⟨c, rest, next, tail, .next, letter, deeper, same⟩
      · exact .inr ⟨rfl, by simpa [Convention.goesOn] using goes, equals, none, same⟩
    · rintro (⟨d, more, next, tail, follows, letter, deeper, same⟩ | ⟨rfl, dash, -, none, same⟩)
      · cases follows with
        | next =>
          refine ⟨?_, .inl ⟨next, tail, letter, deeper, same⟩⟩
          cases letter <;> cases convention <;> rfl
        | skip => exact absurd rfl equals
      · exact ⟨by simp [Convention.goesOn, dash], .inr ⟨rfl, none, same⟩⟩

theorem Cluster.starts (cluster : Cluster convention first text reading) : ∃ c flag more, text = c :: more ∧ Letter c flag := by
  cases cluster with
  | switch letter | owing letter | value letter | more letter | stray _ letter => exact ⟨_, _, _, rfl, letter⟩

theorem Follows.length_lt {d : Char} {more : List Char} (follows : Follows convention first text (d :: more)) :
    more.length < text.length := by
  cases follows with
  | next => simp
  | skip =>
    simp only [List.length_cons]
    omega

/-- Letters behind a dash are read as what they ask for. -/
theorem readBehind_iff (length : Nat) : ∀ {first : Bool} {c : Char} {flag : Flag} {text : List Char} {reading : Reading},
    text.length = length → Letter c flag →
      (readBehind convention first flag text = .ok reading ↔ Cluster convention first (c :: text) reading) := by
  induction length using Nat.strong_induction_on with
  | _ length deeper =>
    rintro first c flag text reading rfl letter
    by_cases valued : Valued flag
    · cases text with
      | nil =>
        constructor
        · rintro ⟨⟩
          rw [readBare_of_valued valued]
          exact .owing letter valued
        · rintro (⟨again, bare⟩ | ⟨again, -⟩ | ⟨-, -, ⟨⟩⟩ | ⟨again, bare, -, -⟩)
          · exact absurd (letter.flag_unique again ▸ valued) bare
          · rw [letter.flag_unique again, readBehind, readBare_of_valued valued]
          · exact absurd (letter.flag_unique again ▸ valued) bare
      | cons d rest =>
        rw [readBehind_valued valued]
        constructor
        · rintro ⟨value, attaches, rfl⟩
          exact .value letter valued attaches
        · rintro (_ | _ | ⟨again, -, attaches⟩ | ⟨again, bare, -, -⟩ | ⟨-, again, bare⟩)
          · exact ⟨_, attaches, by rw [letter.flag_unique again]⟩
          · exact absurd (letter.flag_unique again ▸ valued) bare
          · exact absurd (letter.flag_unique again ▸ valued) bare
    · cases text with
      | nil =>
        constructor
        · rintro ⟨⟩
          rw [readBare_of_not_valued valued]
          exact .switch letter valued
        · rintro (⟨again, -⟩ | ⟨again, others⟩ | ⟨-, -, ⟨⟩⟩ | ⟨again, -, follows, others⟩)
          · rw [letter.flag_unique again, readBehind, readBare_of_not_valued valued]
          · exact absurd (letter.flag_unique again ▸ others) valued
          · obtain ⟨_, _, _, rfl, -⟩ := others.starts
            cases follows.length_lt
      | cons d rest =>
        rw [readBehind_bare_iff valued]
        constructor
        · rintro (⟨e, more, next, tail, follows, further, read, rfl⟩ | ⟨assigning, dash, equals, none, rfl⟩)
          · exact .more letter valued follows ((deeper _ follows.length_lt rfl further).mp read)
          · exact .stray assigning letter valued dash equals none
        · rintro (_ | _ | ⟨again, other, -⟩ | ⟨again, -, follows, others⟩ | ⟨assigning, again, -, dash, equals, none⟩)
          · exact absurd (letter.flag_unique again ▸ other) valued
          · obtain ⟨e, next, more, rfl, further⟩ := others.starts
            obtain rfl := letter.flag_unique again
            exact .inl ⟨e, more, next, _, follows, further, (deeper _ follows.length_lt rfl further).mpr others, rfl⟩
          · exact .inr ⟨assigning, dash, equals, none, by rw [letter.flag_unique again]⟩

/-! ### What an argument is -/

/-- What an argument asks for that spells options. -/
inductive Word (convention : Convention) : List Char → Reading → Prop where
  | switch {name : List Char} {flag : Flag} (named : Abbreviates name flag) (bare : ¬ Valued flag) :
      Word convention name { settings := [(flag, "")] }
  | owing {name : List Char} {flag : Flag} (named : Abbreviates name flag) (valued : Valued flag) :
      Word convention name { owed := some flag }
  | assigned {name value : List Char} {flag : Flag} (named : Abbreviates name flag) (valued : Valued flag) :
      Word convention (name ++ '=' :: value) { settings := [(flag, String.ofList value)] }
  | letters {text : List Char} {reading : Reading} (cluster : Cluster convention true text reading) :
      Word convention ('-' :: text) reading

/-- A text that starts like an option, but with no letter and no name. -/
inductive Foreign : List Char → Prop where
  | letter {c : Char} {text : List Char} (other : c ≠ '-') (none : ∀ flag, ¬ Letter c flag) : Foreign ('-' :: c :: text)
  | name {s name : List Char} {value : Option (List Char)} (long : ['-', '-'] <+: name) (parted : Parted s name value)
      (none : ∀ flag : Flag, ¬ name <+: flag.name) : Foreign s

/-- A text whose name several options have. -/
def Ambiguous (s : List Char) : Prop :=
  ∃ name value, ∃ one other : Flag, ['-', '-'] <+: name ∧ Parted s name value ∧ one ≠ other ∧
    name <+: one.name ∧ name <+: other.name

/-- Digits behind a dash, or digits behind a point behind a dash and further digits, with the end of a line if at all. -/
def NegativeNumber (s : List Char) : Prop :=
  ∃ whole places final : List Char, (∀ c ∈ whole, Text.isDecimal c = true) ∧ (∀ c ∈ places, Text.isDecimal c = true) ∧
    (final = [] ∨ final = ['\n']) ∧
    (whole ≠ [] ∧ s = '-' :: (whole ++ final) ∨ places ≠ [] ∧ s = '-' :: (whole ++ '.' :: (places ++ final)))

/-- A text that the value of an option can be, as an argument of its own. -/
def Plain (s : List Char) : Prop :=
  (∀ c text, s ≠ '-' :: c :: text) ∨ Foreign s ∧ (NegativeNumber s ∨ ' ' ∈ s)

/-- A text that is neither an option nor a value. -/
def Stray (s : List Char) : Prop := Foreign s ∧ ¬ NegativeNumber s ∧ ' ' ∉ s

theorem isNegativeNumber_iff : isNegativeNumber s = true ↔ NegativeNumber s := by
  have newline : Text.isDecimal '\n' = false := by decide
  have point : Text.isDecimal '.' = false := by decide
  constructor
  · intro negative
    unfold isNegativeNumber at negative
    split at negative
    · next digits =>
      have split := List.takeWhile_append_dropWhile (p := Text.isDecimal) (l := digits)
      have whole : ∀ c ∈ digits.takeWhile Text.isDecimal, Text.isDecimal c = true := fun c => List.mem_takeWhile_imp
      dsimp only at negative
      split at negative
      · next nothing =>
        rw [nothing] at split
        exact ⟨_, [], [], whole, by simp, .inl rfl, .inl ⟨by simpa using negative, by rw [split]⟩⟩
      · next line =>
        rw [line] at split
        exact ⟨_, [], ['\n'], whole, by simp, .inr rfl, .inl ⟨by simpa using negative, by rw [split]⟩⟩
      · next fraction point =>
        have further := List.takeWhile_append_dropWhile (p := Text.isDecimal) (l := fraction)
        simp only [Bool.and_eq_true, List.contains_iff_mem, List.mem_cons, List.not_mem_nil, or_false] at negative
        refine ⟨_, fraction.takeWhile Text.isDecimal, fraction.dropWhile Text.isDecimal, whole, fun c => List.mem_takeWhile_imp,
          negative.2, .inr ⟨by simpa using negative.1, ?_⟩⟩
        rw [further, ← point, split]
      · cases negative
    · cases negative
  · rintro ⟨whole, places, final, digits, decimals, last, ⟨some, rfl⟩ | ⟨some, rfl⟩⟩
    · rw [isNegativeNumber, List.takeWhile_append_of_pos digits, List.dropWhile_append_of_pos digits]
      rcases last with rfl | rfl
      · simpa using some
      · simp [newline, some]
    · rw [isNegativeNumber, List.takeWhile_append_of_pos digits, List.dropWhile_append_of_pos digits]
      simp only [point, List.dropWhile_cons, Bool.false_eq_true, if_false]
      rw [List.takeWhile_append_of_pos decimals, List.dropWhile_append_of_pos decimals]
      rcases last with rfl | rfl
      · simp [some]
      · simp [newline, some]

theorem unspelled_eq (s : List Char) [Decidable (NegativeNumber s ∨ ' ' ∈ s)] :
    unspelled s = if NegativeNumber s ∨ ' ' ∈ s then .value else .unknown := by
  simp only [unspelled, Bool.or_eq_true, isNegativeNumber_iff, List.contains_iff_mem]

theorem classify_of_foreign (foreign : Foreign s) : classify (String.ofList s) = .ok (unspelled s) := by
  cases foreign with
  | letter other none => exact classify_of_no_letter other none _
  | name long parted none =>
    obtain ⟨rest, rfl⟩ : ∃ rest, s = '-' :: '-' :: rest := by
      obtain ⟨more, rfl⟩ := long.trans parted.prefix_self
      exact ⟨more, rfl⟩
    rw [classify_long, classifyLong_of_foreign long parted none]

theorem Abbreviates.plain (abbreviates : Abbreviates name flag) : '=' ∉ name :=
  fun member => equals_not_mem_name flag (((abbreviates.2 flag).mpr rfl).mem member)

theorem Abbreviates.flag_unique {other : Flag} (abbreviates : Abbreviates name flag) (again : Abbreviates name other) : other = flag :=
  (abbreviates.2 other).mp ((again.2 other).mpr rfl)

/-- An argument is read as the options that it spells, and is misuse if it spells none. -/
structure ReadAsWord (convention : Convention) (s : List Char) (argument : Argument) (read : Except Stop Reading) : Prop where
  classified : classify (String.ofList s) = .ok argument
  option : consume.reading? convention argument = some read
  word : ∀ reading, read = .ok reading ↔ Word convention s reading
  misuse : ∀ stop, read = .error stop → ∃ message, stop = .misuse message

theorem readAttached_error (length : Nat) : ∀ {flag : Flag} {attachment : Attachment} {text : List Char} {stop : Stop},
    text.length = length → readAttached convention flag attachment text = .error stop → ∃ message, stop = .misuse message := by
  induction length using Nat.strong_induction_on with
  | _ length deeper =>
    rintro flag attachment text stop rfl failed
    by_cases valued : Valued flag
    · rw [readAttached_valued valued] at failed
      cases failed
    · cases text with
      | nil =>
        rw [readAttached_nil valued] at failed
        cases failed
        exact ⟨_, rfl⟩
      | cons c rest =>
        rw [readAttached_bare valued] at failed
        split at failed
        · split at failed
          · cases convention with
            | lettered =>
              cases failed
              exact ⟨_, rfl⟩
            | assigning => cases failed
          · next flag _ =>
            rcases bind_eq_error.mp failed with inner | ⟨_, -, impossible⟩
            · unfold readBehind at inner
              split at inner
              · cases inner
              · split at inner
                · exact deeper _ (by simp only [List.length_cons]; omega) rfl inner
                · exact deeper _ (by simp) rfl inner
              · exact deeper _ (by simp) rfl inner
            · cases impossible
        · cases failed
          exact ⟨_, rfl⟩

theorem readBehind_error {stop : Stop} (failed : readBehind convention first flag text = .error stop) :
    ∃ message, stop = .misuse message := by
  unfold readBehind at failed
  split at failed
  · cases failed
  · split at failed
    · exact readAttached_error _ rfl failed
    · exact readAttached_error _ rfl failed
  · exact readAttached_error _ rfl failed

/-- What starts with the letter of an option is read by its letters. -/
theorem readAsWord_of_letter (letter : Letter c flag) (text : List Char) :
    ReadAsWord convention ('-' :: c :: text) (behind flag text) (readBehind convention true flag text) where
  classified := classify_of_letter letter text
  option := reading?_behind flag text
  word := by
    intro reading
    rw [readBehind_iff _ rfl letter]
    constructor
    · exact .letters
    · intro word
      have other : ¬ ['-', '-'] <+: '-' :: c :: text := by cases letter <;> simp
      generalize same : '-' :: c :: text = s at word other
      cases word with
      | switch named | owing named => exact absurd named.1 other
      | assigned named => exact absurd (named.1.trans (List.prefix_append ..)) other
      | letters cluster =>
        obtain rfl := (List.cons.inj same).2
        exact cluster
  misuse _ := readBehind_error

theorem not_letters_of_long (long : ['-', '-'] <+: '-' :: text) : ¬ Cluster convention true text reading := by
  intro cluster
  obtain ⟨c, _, _, rfl, letter⟩ := cluster.starts
  cases letter <;> simp at long

theorem word_name_iff (named : Abbreviates name flag) : Word convention name reading ↔ reading = readBare flag := by
  constructor
  · intro word
    cases word with
    | switch again bare =>
      obtain rfl := named.flag_unique again
      rw [readBare_of_not_valued bare]
    | owing again valued =>
      obtain rfl := named.flag_unique again
      rw [readBare_of_valued valued]
    | assigned => exact absurd named.plain (by simp)
    | letters cluster => exact absurd cluster (not_letters_of_long named.1)
  · rintro rfl
    by_cases valued : Valued flag
    · rw [readBare_of_valued valued]
      exact .owing named valued
    · rw [readBare_of_not_valued valued]
      exact .switch named valued

theorem word_assigned_iff (named : Abbreviates name flag) : Word convention (name ++ '=' :: value) reading ↔
    Valued flag ∧ reading = { settings := [(flag, String.ofList value)] } := by
  constructor
  · intro word
    have long : ['-', '-'] <+: name ++ '=' :: value := named.1.trans (List.prefix_append ..)
    have parted : Parted (name ++ '=' :: value) name (some value) := .assigned named.plain
    have parts := splitAssignment_of_parted parted
    generalize name ++ '=' :: value = s at word long parts
    cases word with
    | switch again | owing again => cases parts.symm.trans (splitAssignment_of_parted (.bare again.plain))
    | assigned again valued =>
      cases parts.symm.trans (splitAssignment_of_parted (.assigned again.plain))
      obtain rfl := named.flag_unique again
      exact ⟨valued, rfl⟩
    | letters cluster => exact absurd cluster (not_letters_of_long long)
  · rintro ⟨valued, rfl⟩
    exact .assigned named valued

/-- What abbreviates the name of an option is read by its name. -/
theorem readAsWord_of_name {value : Option (List Char)} (parted : Parted s name value) (named : Abbreviates name flag) :
    ∃ argument read, ReadAsWord convention s argument read := by
  obtain ⟨rest, long⟩ := named.1.trans parted.prefix_self
  have classified : classify (String.ofList s) = .ok (value.elim (.option flag) (.attached flag .named)) := by
    rw [← classifyLong_of_abbreviates parted named, ← long]
    exact classify_long rest
  cases parted with
  | bare =>
    refine ⟨_, .ok (readBare flag), classified, rfl, ?_, nofun⟩
    intro reading
    rw [word_name_iff named, Except.ok.injEq, eq_comm]
  | @assigned _ value plain =>
    refine ⟨_, readAttached convention flag .named value, classified, rfl, ?_, fun _ => readAttached_error _ rfl⟩
    intro reading
    rw [word_assigned_iff named]
    by_cases valued : Valued flag
    · rw [readAttached_valued valued, Except.ok.injEq, eq_comm]
      simp [valued]
    · have failed : ∃ message, readAttached convention flag .named value = .error (.misuse message) := by
        cases value with
        | nil => exact ⟨_, readAttached_nil valued _⟩
        | cons d more =>
          rw [readAttached_bare valued]
          cases convention <;> exact ⟨_, rfl⟩
      obtain ⟨message, failed⟩ := failed
      simp [failed, valued]

theorem Parted.long {value : Option (List Char)} (parted : Parted ('-' :: '-' :: text) name value) : ['-', '-'] <+: name := by
  generalize whole : '-' :: '-' :: text = s at parted
  cases parted with
  | bare =>
    rw [← whole]
    exact List.prefix_append ['-', '-'] text
  | assigned =>
    match name, whole with
    | [], whole => exact absurd (List.cons.inj whole).1 (by decide)
    | [_], whole => exact absurd (List.cons.inj (List.cons.inj whole).2).1 (by decide)
    | _ :: _ :: _, whole =>
      obtain ⟨rfl, rest⟩ := List.cons.inj whole
      obtain ⟨rfl, -⟩ := List.cons.inj rest
      exact List.prefix_append ['-', '-'] _

/-- An argument is a value, neither an option nor a value, the name of several options, or options. -/
theorem word_cases (convention : Convention) (s : List Char) : Plain s ∨ Stray s ∨ Ambiguous s ∨
    ∃ argument read, ReadAsWord convention s argument read := by
  have foreign : Foreign s → Plain s ∨ Stray s := by
    intro foreign
    by_cases value : NegativeNumber s ∨ ' ' ∈ s
    · exact .inl (.inr ⟨foreign, value⟩)
    · exact .inr ⟨foreign, not_or.mp value⟩
  match s with
  | [] => exact .inl (.inl nofun)
  | [c] => exact .inl (.inl nofun)
  | first :: c :: text =>
    by_cases dash : first = '-'
    · subst dash
      by_cases second : c = '-'
      · subst second
        have parted := parted_splitAssignment ('-' :: '-' :: text)
        generalize splitAssignment ('-' :: '-' :: text) = parts at parted
        obtain ⟨name, value⟩ := parts
        have long := parted.long
        by_cases none : ∀ flag : Flag, ¬ name <+: flag.name
        · rcases foreign (.name long parted none) with plain | stray
          · exact .inl plain
          · exact .inr (.inl stray)
        · simp only [not_forall, not_not] at none
          obtain ⟨flag, starts⟩ := none
          by_cases only : ∀ other : Flag, name <+: other.name ↔ other = flag
          · exact .inr (.inr (.inr (readAsWord_of_name parted ⟨long, only⟩)))
          · refine .inr (.inr (.inl ?_))
            simp only [not_forall] at only
            obtain ⟨other, differs⟩ := only
            have different : name <+: other.name ∧ flag ≠ other := by
              by_cases same : other = flag
              · exact absurd (iff_of_true (same ▸ starts) same) differs
              · exact ⟨by tauto, Ne.symm same⟩
            exact ⟨name, value, flag, other, long, parted, different.2, starts, different.1⟩
      · by_cases letter : ∃ flag, Letter c flag
        · obtain ⟨flag, letter⟩ := letter
          exact .inr (.inr (.inr ⟨_, _, readAsWord_of_letter letter text⟩))
        · rcases foreign (.letter second (not_exists.mp letter)) with plain | stray
          · exact .inl plain
          · exact .inr (.inl stray)
    · refine .inl (.inl ?_)
      rintro _ _ same
      exact dash (List.cons.inj same).1

theorem classify_of_plain (plain : Plain s) : classify (String.ofList s) = .ok .value := by
  classical
  rcases plain with short | ⟨foreign, value⟩
  · exact classify_of_no_dash short
  · rw [classify_of_foreign foreign, unspelled_eq, if_pos value]

theorem classify_of_stray (stray : Stray s) : classify (String.ofList s) = .ok .unknown := by
  classical
  rw [classify_of_foreign stray.1, unspelled_eq, if_neg (not_or.mpr stray.2)]

theorem classify_of_ambiguous (ambiguous : Ambiguous s) : ∃ message, classify (String.ofList s) = .error (.misuse message) := by
  obtain ⟨name, value, one, other, long, parted, different, first, second⟩ := ambiguous
  obtain ⟨rest, rfl⟩ := long.trans parted.prefix_self
  obtain ⟨message, failed⟩ := classifyLong_of_ambiguous long parted different first second
  exact ⟨message, (classify_long rest).trans failed⟩

theorem readAsWord_of_word (word : Word convention s reading) : ∃ argument read, ReadAsWord convention s argument read := by
  cases word with
  | switch named | owing named => exact readAsWord_of_name (.bare named.plain) named
  | assigned named => exact readAsWord_of_name (.assigned named.plain) named
  | letters cluster =>
    obtain ⟨c, flag, more, rfl, letter⟩ := cluster.starts
    exact ⟨_, _, readAsWord_of_letter letter more⟩

end CrateFold.Cli
