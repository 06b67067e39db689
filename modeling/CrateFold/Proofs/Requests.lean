import CrateFold.Proofs.Arguments
import Mathlib.Data.List.Induction

/-!
What a list of arguments asks for. The requests of a list are read off from left to right, an option that needs a value
taking the next argument (`Asks`). The value that an option has in the end is the last one given to it (`Asked`). Options
are parsed exactly from the arguments that ask for them and for nothing else (`parse_eq_ok_iff`), and the parsing
stops for help exactly if the arguments up to some place ask for it (`parse_eq_help_iff`).
-/
namespace CrateFold.Cli

variable {convention : Convention} {arguments rest front back left kept : List String} {argument value : String}
  {requests more : List (Flag × String)} {flag : Flag} {reading : Reading} {o final : Options}
  {words : List (String × Argument)}

/-! ### The requests of a list of arguments -/

/-- The options that arguments ask for, with their values, and what is left over. -/
inductive Asks (convention : Convention) : List String → List (Flag × String) → List String → Prop where
  | nil : Asks convention [] [] []
  | word {argument : String} {reading : Reading} {rest left : List String} {requests : List (Flag × String)}
      (word : Word convention argument.toList reading) (complete : reading.owed = none)
      (others : Asks convention rest requests left) :
      Asks convention (argument :: rest) (reading.settings ++ requests) (reading.stray ++ left)
  | owing {argument value : String} {reading : Reading} {flag : Flag} {rest left : List String}
      {requests : List (Flag × String)} (word : Word convention argument.toList reading) (owed : reading.owed = some flag)
      (plain : Plain value.toList) (others : Asks convention rest requests left) :
      Asks convention (argument :: value :: rest) (reading.settings ++ (flag, value) :: requests) left
  | other {argument : String} {rest left : List String} {requests : List (Flag × String)}
      (none : Plain argument.toList ∨ Stray argument.toList) (others : Asks convention rest requests left) :
      Asks convention (argument :: rest) requests (argument :: left)
  | mark {rest : List String} : Asks convention ("--" :: rest) [] ("--" :: rest)

/-- No argument before the mark has a name that several options have. -/
def Clear (arguments : List String) : Prop := ∀ argument ∈ arguments.takeWhile (· != "--"), ¬ Ambiguous argument.toList

/-- The last value that an option is given. -/
def lastValue? (requests : List (Flag × String)) (flag : Flag) : Option String :=
  ((requests.filter (·.1 == flag)).map Prod.snd).getLast?

/-- The place that a value names. -/
def placeOf (convention : Convention) : Option String → Place
  | none => .absent
  | some value => if convention = .lettered ∧ value = "--" then .unnamed else .named (FilePath.ofString value)

/-- What the options are when these are requested. -/
structure Asked (convention : Convention) (requests : List (Flag × String)) (o : Options) : Prop where
  bin : o.bin = true ↔ ∃ value, (.bin, value) ∈ requests
  crateDir : o.crateDir = placeOf convention (lastValue? requests .crateDir)
  root : o.root = placeOf convention (lastValue? requests .root)
  prune : o.prune = true ↔ ∃ value, (.prune, value) ∈ requests
  output : o.output = placeOf convention (lastValue? requests .output)
  verbose : o.verbose = true ↔ ∃ value, (.verbose, value) ∈ requests

/-- The arguments ask for these options and for nothing else. -/
def AsksFor (convention : Convention) (arguments : List String) (o : Options) : Prop :=
  ∃ requests, Asks convention arguments requests [] ∧ (∀ value, (.help, value) ∉ requests) ∧ Asked convention requests o

/-- The arguments up to some place ask for help among other things, and those behind it are clear. -/
def AsksForHelp (convention : Convention) (arguments : List String) : Prop :=
  Clear arguments ∧ ∃ front back requests left value, arguments = front ++ back ∧
    Asks convention front requests left ∧ (.help, value) ∈ requests

/-! ### Classified arguments -/

theorem classify_of_toList {argument : String} : classify argument = classify (String.ofList argument.toList) := by
  rw [String.ofList_toList]

theorem not_mark_of_classified {argument : String} {what : Argument} (classified : classify argument = .ok what) : argument ≠ "--" := by
  rintro rfl
  have failed : (classify "--").toOption.isNone = true := by decide
  rw [classified] at failed
  cases failed

theorem classifyAll_cons {what : Argument} (classified : classify argument = .ok what) :
    classifyAll (argument :: rest) = (classifyAll rest >>= fun words => .ok ((argument, what) :: words)) := by
  rw [classifyAll, if_neg (by simpa using not_mark_of_classified classified), classified]
  rfl

theorem classifyAll_mark (rest : List String) : classifyAll ("--" :: rest) = .ok (("--", .mark) :: rest.map (·, .value)) := rfl

theorem classify_of_readAsWord {what : Argument} {read : Except Stop Reading}
    (word : ReadAsWord convention argument.toList what read) : classify argument = .ok what := by
  rw [classify_of_toList, word.classified]

/-- An argument is ambiguous, or it is classified. -/
theorem classify_eq_ok_iff : (∃ what, classify argument = .ok what) ↔ ¬ Ambiguous argument.toList := by
  rw [classify_of_toList]
  constructor
  · rintro ⟨what, classified⟩ ambiguous
    obtain ⟨message, failed⟩ := classify_of_ambiguous ambiguous
    cases classified.symm.trans failed
  · intro clear
    rcases word_cases .lettered argument.toList with plain | stray | ambiguous | ⟨what, read, word⟩
    · exact ⟨_, classify_of_plain plain⟩
    · exact ⟨_, classify_of_stray stray⟩
    · exact absurd ambiguous clear
    · exact ⟨_, word.classified⟩

theorem plain_of_classify (classified : classify argument = .ok .value) : Plain argument.toList := by
  rw [classify_of_toList] at classified
  rcases word_cases .lettered argument.toList with plain | stray | ambiguous | ⟨what, read, word⟩
  · exact plain
  · cases classified.symm.trans (classify_of_stray stray)
  · obtain ⟨message, failed⟩ := classify_of_ambiguous ambiguous
    cases classified.symm.trans failed
  · cases classified.symm.trans word.classified
    cases word.option

theorem clear_cons_iff (unmarked : argument ≠ "--") : Clear (argument :: rest) ↔ ¬ Ambiguous argument.toList ∧ Clear rest := by
  simp [Clear, unmarked]

/-- Arguments that are clear can be classified. -/
theorem classifyAll_eq_ok_iff : (∃ words, classifyAll arguments = .ok words) ↔ Clear arguments := by
  induction arguments with
  | nil => simp [classifyAll, Clear]
  | cons argument rest ih =>
    by_cases mark : argument = "--"
    · subst mark
      simp [classifyAll_mark, Clear]
    · rw [clear_cons_iff mark, ← ih, ← classify_eq_ok_iff]
      constructor
      · rintro ⟨words, classified⟩
        rw [classifyAll, if_neg (by simpa using mark)] at classified
        obtain ⟨what, here, classified⟩ := bind_eq_ok.mp classified
        obtain ⟨others, later, -⟩ := bind_eq_ok.mp classified
        exact ⟨⟨what, here⟩, others, later⟩
      · rintro ⟨⟨what, here⟩, others, later⟩
        exact ⟨_, by rw [classifyAll_cons here, later]; rfl⟩

/-! ### Consuming what arguments ask for -/

theorem setAll_append : o.setAll convention (requests ++ more) =
    (o.setAll convention requests >>= fun o => o.setAll convention more) := by
  induction requests generalizing o with
  | nil => rfl
  | cons request rest ih =>
    rw [List.cons_append, Options.setAll, Options.setAll]
    cases o.set convention request.1 request.2 with
    | error stop => rfl
    | ok o => exact ih

section

variable {what : Argument}

theorem consume_other (none : consume.reading? convention what = none) (words : List (String × Argument)) (o : Options)
    (kept : List String) :
    consume convention ((argument, what) :: words) o kept = consume convention words o (kept ++ [argument]) := by
  rw [consume.eq_def]
  simp only [none]

theorem consume_word (read : consume.reading? convention what = some (.ok reading)) (complete : reading.owed = none)
    (words : List (String × Argument)) (o : Options) (kept : List String) :
    consume convention ((argument, what) :: words) o kept =
      (o.setAll convention reading.settings >>= fun o => consume convention words o (kept ++ reading.stray)) := by
  rw [consume.eq_def]
  simp only [read, complete]

theorem consume_owing (read : consume.reading? convention what = some (.ok reading)) (owed : reading.owed = some flag)
    (words : List (String × Argument)) (o : Options) (kept : List String) :
    consume convention ((argument, what) :: (value, .value) :: words) o kept =
      (o.setAll convention (reading.settings ++ [(flag, value)]) >>= fun o => consume convention words o kept) := by
  rw [consume.eq_def]
  simp only [read, owed]

end

theorem consume_values (values : List String) (o : Options) (kept : List String) :
    consume convention (values.map (·, .value)) o kept = .ok (o, kept ++ values) := by
  induction values generalizing kept with
  | nil => simp [consume]
  | cons value rest ih => rw [List.map_cons, consume_other rfl, ih, List.append_assoc, List.singleton_append]

/-- What arguments ask for is taken into account, and the rest of the list after it. -/
theorem consume_of_asks (asks : Asks convention front requests left) (classified : classifyAll (front ++ back) = .ok words) :
    ∃ later, (back = [] → later = []) ∧ ("--" ∉ front → classifyAll back = .ok later) ∧ ∀ o kept,
      consume convention words o kept = (o.setAll convention requests >>= fun o => consume convention later o (kept ++ left)) := by
  induction asks generalizing words with
  | nil =>
    refine ⟨words, ?_, fun _ => classified, fun o kept => by simp [Options.setAll]⟩
    rintro rfl
    cases classified
    rfl
  | @word argument reading rest left requests word complete others ih =>
    obtain ⟨what, read, asWord⟩ := readAsWord_of_word word
    obtain rfl := (asWord.word reading).mpr word
    rw [List.cons_append, classifyAll_cons (classify_of_readAsWord asWord)] at classified
    obtain ⟨more, others, same⟩ := bind_eq_ok.mp classified
    cases same
    obtain ⟨later, ended, behind, consumed⟩ := ih others
    refine ⟨later, ended, fun unmarked => behind (by simp_all), fun o kept => ?_⟩
    rw [consume_word asWord.option complete, setAll_append, bind_assoc]
    simp only [consumed, List.append_assoc]
  | @owing argument value reading flag rest left requests word owed plain others ih =>
    obtain ⟨what, read, asWord⟩ := readAsWord_of_word word
    obtain rfl := (asWord.word reading).mpr word
    have here : classify value = .ok .value := by rw [classify_of_toList, classify_of_plain plain]
    rw [List.cons_append, classifyAll_cons (classify_of_readAsWord asWord), List.cons_append, classifyAll_cons here] at classified
    obtain ⟨_, inner, same⟩ := bind_eq_ok.mp classified
    obtain ⟨more, others, again⟩ := bind_eq_ok.mp inner
    cases again
    cases same
    obtain ⟨later, ended, behind, consumed⟩ := ih others
    refine ⟨later, ended, fun unmarked => behind (by simp_all), fun o kept => ?_⟩
    have parts : o.setAll convention (reading.settings ++ (flag, value) :: requests) =
        (o.setAll convention (reading.settings ++ [(flag, value)]) >>= fun o => o.setAll convention requests) := by
      rw [List.append_cons, setAll_append]
    rw [consume_owing asWord.option owed, parts, bind_assoc]
    simp only [consumed]
  | @other argument rest left requests none others ih =>
    obtain ⟨what, here, silent⟩ : ∃ what, classify argument = .ok what ∧ consume.reading? convention what = .none := by
      rw [classify_of_toList]
      rcases none with plain | stray
      · exact ⟨_, classify_of_plain plain, rfl⟩
      · exact ⟨_, classify_of_stray stray, rfl⟩
    rw [List.cons_append, classifyAll_cons here] at classified
    obtain ⟨more, others, same⟩ := bind_eq_ok.mp classified
    cases same
    obtain ⟨later, ended, behind, consumed⟩ := ih others
    refine ⟨later, ended, fun unmarked => behind (by simp_all), fun o kept => ?_⟩
    rw [consume_other silent, consumed, List.append_assoc, List.singleton_append]
  | @mark rest =>
    rw [List.cons_append, classifyAll_mark] at classified
    cases classified
    refine ⟨back.map (·, .value), by rintro rfl; rfl, fun unmarked => absurd (List.mem_cons_self ..) unmarked, fun o kept => ?_⟩
    rw [consume_other rfl, consume_values, Options.setAll, ok_bind, consume_values]
    simp

/-- No reading of the arguments succeeds. -/
def Fails (convention : Convention) (arguments : List String) : Prop :=
  ∀ words, classifyAll arguments = .ok words → ∀ o kept, ∃ message, consume convention words o kept = .error (.misuse message)

theorem fails_of_misuse {what : Argument} {message : String}
    (word : ReadAsWord convention argument.toList what (.error (.misuse message))) : Fails convention (argument :: rest) := by
  intro words classified o kept
  rw [classifyAll_cons (classify_of_readAsWord word)] at classified
  obtain ⟨more, -, same⟩ := bind_eq_ok.mp classified
  cases same
  refine ⟨message, ?_⟩
  rw [consume.eq_def]
  simp only [word.option]

/-- An option that needs a value fails if none comes next. -/
theorem fails_of_owed {what : Argument} (word : ReadAsWord convention argument.toList what (.ok reading))
    (owed : reading.owed = some flag) (none : ∀ value more, rest = value :: more → ¬ Plain value.toList) :
    Fails convention (argument :: rest) := by
  intro words classified o kept
  rw [classifyAll_cons (classify_of_readAsWord word)] at classified
  obtain ⟨more, later, same⟩ := bind_eq_ok.mp classified
  cases same
  rw [consume.eq_def]
  simp only [word.option, owed]
  split
  · contradiction
  · next value more _ =>
    cases rest with
    | nil => cases later
    | cons first others =>
      have plain : first = value ∧ Plain value.toList := by
        by_cases mark : first = "--"
        · subst mark
          cases later
        · rw [classifyAll, if_neg (by simpa using mark)] at later
          obtain ⟨what, here, later⟩ := bind_eq_ok.mp later
          obtain ⟨_, -, same⟩ := bind_eq_ok.mp later
          cases same
          exact ⟨rfl, plain_of_classify here⟩
      exact absurd plain.2 (none value others (by rw [plain.1]))
  · exact ⟨_, rfl⟩

/-- Arguments ask for something to their end, or up to a place from where no reading succeeds. -/
def AsksUpTo (convention : Convention) (arguments : List String) : Prop :=
  ∃ front back requests left, arguments = front ++ back ∧ Asks convention front requests left ∧
    (back = [] ∨ "--" ∉ front ∧ Fails convention back)

theorem AsksUpTo.extend {before : List String} (unmarked : "--" ∉ before) (upTo : AsksUpTo convention rest)
    (longer : ∀ front requests left, Asks convention front requests left →
      ∃ requests left, Asks convention (before ++ front) requests left) : AsksUpTo convention (before ++ rest) := by
  obtain ⟨front, back, requests, left, rfl, asks, ended⟩ := upTo
  obtain ⟨requests, left, asks⟩ := longer front requests left asks
  refine ⟨before ++ front, back, requests, left, (List.append_assoc ..).symm, asks, ended.imp id fun fails => ⟨?_, fails.2⟩⟩
  rw [List.mem_append]
  exact not_or.mpr ⟨unmarked, fails.1⟩

theorem asksUpTo_of_clear (length : Nat) : ∀ {arguments : List String}, arguments.length = length → Clear arguments →
    AsksUpTo convention arguments := by
  induction length using Nat.strong_induction_on with
  | _ length deeper =>
    rintro arguments rfl clear
    have here : ∀ back, Fails convention back → AsksUpTo convention back := fun back fails =>
      ⟨[], back, [], [], rfl, .nil, .inr ⟨by simp, fails⟩⟩
    match arguments with
    | [] => exact ⟨[], [], [], [], rfl, .nil, .inl rfl⟩
    | argument :: rest =>
      by_cases mark : argument = "--"
      · subst mark
        exact ⟨_, [], _, _, (List.append_nil _).symm, .mark, .inl rfl⟩
      · obtain ⟨unambiguous, others⟩ := (clear_cons_iff mark).mp clear
        have further := deeper rest.length (by simp) rfl others
        have unmarked : "--" ∉ [argument] := by simpa using Ne.symm mark
        rcases word_cases convention argument.toList with plain | stray | ambiguous | ⟨what, read, word⟩
        · exact further.extend unmarked fun _ _ _ asks => ⟨_, _, .other (.inl plain) asks⟩
        · exact further.extend unmarked fun _ _ _ asks => ⟨_, _, .other (.inr stray) asks⟩
        · exact absurd ambiguous unambiguous
        · cases read with
          | error stop =>
            obtain ⟨message, rfl⟩ := word.misuse stop rfl
            exact here _ (fails_of_misuse word)
          | ok reading =>
            have asWord := (word.word reading).mp rfl
            cases owed : reading.owed with
            | none => exact further.extend unmarked fun _ _ _ asks => ⟨_, _, .word asWord owed asks⟩
            | some flag =>
              by_cases next : ∃ value more, rest = value :: more ∧ Plain value.toList
              · obtain ⟨value, more, rfl, plain⟩ := next
                have valueUnmarked : value ≠ "--" :=
                  not_mark_of_classified (classify_of_toList.trans (classify_of_plain plain))
                have after := deeper more.length (by simp only [List.length_cons]; omega) rfl
                  ((clear_cons_iff valueUnmarked).mp others).2
                have both : "--" ∉ [argument, value] := by simp [Ne.symm mark, Ne.symm valueUnmarked]
                exact after.extend both fun _ _ _ asks => ⟨_, _, .owing asWord owed plain asks⟩
              · refine here _ (fails_of_owed word owed ?_)
                exact fun value more same plain => next ⟨value, more, same, plain⟩

/-! ### What options are set to -/

theorem set_eq_ok (other : flag ≠ .help) (o : Options) (value : String) : ∃ next, o.set convention flag value = .ok next := by
  cases flag with
  | help => exact absurd rfl other
  | _ => exact ⟨_, rfl⟩

/-- Taking requests into account ends for help, if at all. -/
theorem setAll_eq_error_iff {stop : Stop} : o.setAll convention requests = .error stop ↔
    stop = .help ∧ ∃ value, (.help, value) ∈ requests := by
  induction requests generalizing o with
  | nil => simp [Options.setAll]
  | cons request rest ih =>
    obtain ⟨flag, value⟩ := request
    rw [Options.setAll]
    by_cases help : flag = .help
    · subst help
      simp [Options.set, eq_comm]
    · obtain ⟨next, set⟩ := set_eq_ok help o value
      rw [set, ok_bind, ih]
      simp [Ne.symm help]

theorem ofValue_eq (convention : Convention) (value : String) : Place.ofValue convention value = placeOf convention (some value) := by
  cases convention <;> simp [Place.ofValue, placeOf]

theorem lastValue?_snoc (requests : List (Flag × String)) (added flag : Flag) (value : String) :
    lastValue? (requests ++ [(added, value)]) flag = if added = flag then some value else lastValue? requests flag := by
  by_cases same : added = flag
  · simp [lastValue?, same]
  · simp [lastValue?, same]

theorem asked_snoc {next : Options} (asked : Asked convention requests o) (set : o.set convention flag value = .ok next) :
    Asked convention (requests ++ [(flag, value)]) next := by
  obtain ⟨bin, crateDir, root, prune, output, verbose⟩ := asked
  cases flag with
  | help => cases set
  | _ =>
    cases set
    constructor <;> simp_all [lastValue?_snoc, ofValue_eq]

theorem Asked.unique (asked : Asked convention requests o) (again : Asked convention requests final) : o = final := by
  obtain ⟨bin, crateDir, root, prune, output, verbose⟩ := o
  obtain ⟨bin', crateDir', root', prune', output', verbose'⟩ := final
  obtain rfl := asked.crateDir.trans again.crateDir.symm
  obtain rfl := asked.root.trans again.root.symm
  obtain rfl := asked.output.trans again.output.symm
  obtain rfl := Bool.eq_iff_iff.mpr (asked.bin.trans again.bin.symm)
  obtain rfl := Bool.eq_iff_iff.mpr (asked.prune.trans again.prune.symm)
  obtain rfl := Bool.eq_iff_iff.mpr (asked.verbose.trans again.verbose.symm)
  rfl

theorem asked_of_setAll (set : Options.setAll convention {} requests = .ok o) : Asked convention requests o := by
  induction requests using List.reverseRecOn generalizing o with
  | nil =>
    cases set
    constructor <;> simp [lastValue?, placeOf]
  | append_singleton requests request ih =>
    rw [setAll_append] at set
    obtain ⟨before, set, last⟩ := bind_eq_ok.mp set
    obtain ⟨after, last, same⟩ := bind_eq_ok.mp last
    cases same
    exact asked_snoc (ih set) last

theorem setAll_eq_ok_iff : Options.setAll convention {} requests = .ok o ↔
    (∀ value, (.help, value) ∉ requests) ∧ Asked convention requests o := by
  constructor
  · intro set
    refine ⟨fun value member => ?_, asked_of_setAll set⟩
    cases set.symm.trans (setAll_eq_error_iff.mpr ⟨rfl, value, member⟩)
  · rintro ⟨none, asked⟩
    cases set : Options.setAll convention {} requests with
    | error stop =>
      obtain ⟨-, value, member⟩ := setAll_eq_error_iff.mp set
      exact absurd member (none value)
    | ok final => rw [asked.unique (asked_of_setAll set)]

/-! ### Parsing -/

/-- Arguments that ask for something are clear. -/
theorem Asks.clear (asks : Asks convention arguments requests left) : Clear arguments := by
  have unmarked : ∀ {argument : String}, (∃ what, classify argument = .ok what) → argument ≠ "--" := by
    rintro argument ⟨what, classified⟩
    exact not_mark_of_classified classified
  have ofWord : ∀ {argument : String} {reading : Reading}, Word convention argument.toList reading →
      ∃ what, classify argument = .ok what := by
    intro argument reading word
    obtain ⟨what, read, asWord⟩ := readAsWord_of_word word
    exact ⟨what, classify_of_readAsWord asWord⟩
  have ofPlain : ∀ {argument : String}, Plain argument.toList → ∃ what, classify argument = .ok what :=
    fun plain => ⟨_, classify_of_toList.trans (classify_of_plain plain)⟩
  have ofStray : ∀ {argument : String}, Stray argument.toList → ∃ what, classify argument = .ok what :=
    fun stray => ⟨_, classify_of_toList.trans (classify_of_stray stray)⟩
  have extend : ∀ {argument : String} {rest : List String}, (∃ what, classify argument = .ok what) → Clear rest →
      Clear (argument :: rest) :=
    fun classified clear => (clear_cons_iff (unmarked classified)).mpr ⟨classify_eq_ok_iff.mp classified, clear⟩
  induction asks with
  | nil => simp [Clear]
  | word word complete others ih => exact extend (ofWord word) ih
  | owing word owed plain others ih => exact extend (ofWord word) (extend (ofPlain plain) ih)
  | other none others ih =>
    rcases none with plain | stray
    · exact extend (ofPlain plain) ih
    · exact extend (ofStray stray) ih
  | mark => simp [Clear]

/-- Arguments are parsed by what they ask for up to some place, which is their end or one from where no reading
succeeds. -/
theorem parse_of_asks (asks : Asks convention front requests left)
    (ended : back = [] ∨ "--" ∉ front ∧ Fails convention back) (clear : Clear (front ++ back)) :
    (∀ stop, Options.setAll convention {} requests = .error stop → Options.parse convention (front ++ back) = .error stop) ∧
    ∀ o, Options.setAll convention {} requests = .ok o →
      if back = [] ∧ left = [] then Options.parse convention (front ++ back) = .ok o
      else ∃ message, Options.parse convention (front ++ back) = .error (.misuse message) := by
  obtain ⟨words, classified⟩ := classifyAll_eq_ok_iff.mpr clear
  obtain ⟨later, last, behind, consumed⟩ := consume_of_asks asks classified
  simp only [Options.parse, classified, ok_bind, consumed, List.nil_append]
  refine ⟨fun stop failed => by rw [failed]; rfl, fun o set => ?_⟩
  rw [set, ok_bind]
  rcases ended with rfl | ⟨unmarked, fails⟩
  · obtain rfl := last rfl
    cases left with
    | nil => simp [consume]
    | cons argument rest => exact ⟨_, rfl⟩
  · obtain ⟨message, failed⟩ := fails later (behind unmarked) o left
    rw [failed]
    split
    · next none =>
      obtain ⟨rfl, rfl⟩ := none
      cases behind unmarked
      cases failed
    · exact ⟨message, rfl⟩

theorem classifyAll_error {stop : Stop} (failed : classifyAll arguments = .error stop) : ∃ message, stop = .misuse message := by
  induction arguments with
  | nil => cases failed
  | cons argument rest ih =>
    rw [classifyAll] at failed
    split at failed
    · cases failed
    · rcases bind_eq_error.mp failed with here | ⟨_, -, later⟩
      · have ambiguous : Ambiguous argument.toList := by
          by_contra clear
          obtain ⟨what, classified⟩ := classify_eq_ok_iff.mpr clear
          cases here.symm.trans classified
        obtain ⟨message, misuse⟩ := classify_of_ambiguous ambiguous
        rw [classify_of_toList, misuse] at here
        cases here
        exact ⟨message, rfl⟩
      · rcases bind_eq_error.mp later with others | ⟨_, -, impossible⟩
        · exact ih others
        · cases impossible

/-- Arguments that can be parsed, or ask for help, are clear. -/
theorem clear_of_parse {parsed : Except Stop Options} (same : Options.parse convention arguments = parsed)
    (sensible : ∀ message, parsed ≠ .error (.misuse message)) : Clear arguments := by
  rw [← classifyAll_eq_ok_iff]
  cases classified : classifyAll arguments with
  | ok words => exact ⟨words, rfl⟩
  | error stop =>
    obtain ⟨message, rfl⟩ := classifyAll_error classified
    rw [Options.parse, classified] at same
    exact absurd same.symm (sensible message)

/-- Options are parsed from the arguments that ask for them and for nothing else. -/
theorem parse_eq_ok_iff : Options.parse convention arguments = .ok o ↔ AsksFor convention arguments o := by
  constructor
  · intro parsed
    have clear := clear_of_parse parsed nofun
    obtain ⟨front, back, requests, left, rfl, asks, ended⟩ : AsksUpTo convention arguments := asksUpTo_of_clear _ rfl clear
    obtain ⟨failed, done⟩ := parse_of_asks asks ended clear
    cases set : Options.setAll convention {} requests with
    | error stop => cases parsed.symm.trans (failed stop set)
    | ok final =>
      have outcome := done final set
      split at outcome
      · next all =>
        obtain ⟨rfl, rfl⟩ := all
        cases parsed.symm.trans outcome
        rw [List.append_nil]
        exact ⟨requests, asks, setAll_eq_ok_iff.mp set⟩
      · obtain ⟨message, misuse⟩ := outcome
        cases parsed.symm.trans misuse
  · rintro ⟨requests, asks, asked⟩
    have clear : Clear (arguments ++ []) := by simpa using asks.clear
    simpa using (parse_of_asks asks (.inl rfl) clear).2 o (setAll_eq_ok_iff.mpr asked)

/-- The parsing stops for help if the arguments ask for it. -/
theorem parse_eq_help_iff : Options.parse convention arguments = .error .help ↔ AsksForHelp convention arguments := by
  constructor
  · intro parsed
    have clear := clear_of_parse parsed (by simp)
    refine ⟨clear, ?_⟩
    obtain ⟨front, back, requests, left, rfl, asks, ended⟩ : AsksUpTo convention arguments := asksUpTo_of_clear _ rfl clear
    obtain ⟨failed, done⟩ := parse_of_asks asks ended clear
    cases set : Options.setAll convention {} requests with
    | error stop =>
      obtain ⟨-, value, member⟩ := setAll_eq_error_iff.mp set
      exact ⟨front, back, requests, left, value, rfl, asks, member⟩
    | ok final =>
      have outcome := done final set
      split at outcome
      · cases parsed.symm.trans outcome
      · obtain ⟨message, misuse⟩ := outcome
        cases parsed.symm.trans misuse
  · rintro ⟨clear, front, back, requests, left, value, rfl, asks, member⟩
    obtain ⟨words, classified⟩ := classifyAll_eq_ok_iff.mpr clear
    obtain ⟨later, -, -, consumed⟩ := consume_of_asks asks classified
    have set : Options.setAll convention {} requests = .error .help := setAll_eq_error_iff.mpr ⟨rfl, value, member⟩
    rw [Options.parse, classified, ok_bind, consumed, set]
    rfl

end CrateFold.Cli
