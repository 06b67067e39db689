import CrateFold.FilePath
import CrateFold.Text.Quoted
import CrateFold.Text.Word

/-!
# Command line options

Options are read from left to right. A long option may be abbreviated and may carry its value after
`=`; a short option may carry its value after `=` or directly behind it, and short options without
values may be written together. Everything that is no option and no value of one is left over, and is an
error in the end. A request for help stops the reading.

Readers of options differ in what may stand behind short options without value, and in what a value `--`
is (`Convention`). So `-vo=x` writes to `=x` or to `x`, `-hx` is misuse or asks for help, and `--root=--`
names no file or the file `--`. The program follows the first of both (`Convention.lettered`).
-/

namespace CrateFold.Cli

/-- The options of the program. -/
inductive Flag where
  | help
  | bin
  | crateDir
  | root
  | prune
  | output
  | verbose
deriving DecidableEq, Repr

/-- The spellings of an option. -/
def Flag.spellings : Flag → List String
  | .help => ["-h", "--help"]
  | .bin => ["--bin"]
  | .crateDir => ["--crate-dir"]
  | .root => ["--root"]
  | .prune => ["--prune"]
  | .output => ["-o", "--output"]
  | .verbose => ["-v", "--verbose"]

/-- Whether an option has a value. -/
def Flag.takesValue : Flag → Bool
  | .crateDir | .root | .output => true
  | .help | .bin | .prune | .verbose => false

/-- The options in the order of the help text. -/
def Flag.all : List Flag := [.help, .bin, .crateDir, .root, .prune, .output, .verbose]

/-- All spellings with their options. -/
def spellingTable : List (String × Flag) :=
  Flag.all.flatMap fun flag => flag.spellings.map fun spelling => (spelling, flag)

/-- Why the reading of options ends early. -/
inductive Stop where
  | help
  | misuse (message : String)
deriving DecidableEq, Repr

/-- The end of the reading for something wrong with one option. -/
def Stop.about (flag : Flag) (message : String) : Stop :=
  .misuse ("argument " ++ "/".intercalate flag.spellings ++ ": " ++ message)

/-- The end of the reading for a value on an option that has none. -/
def Stop.ignored (flag : Flag) (value : List Char) : Stop :=
  .about flag s!"ignored explicit argument {Text.quote (String.ofList value)}"

/-- What may stand behind short options without value, and what a value `--` is. -/
inductive Convention where
  /-- Every character behind is a further option, but for an `=` right behind the first one, which is skipped; a
  character that is no option is misuse. A value `--` is dropped, so that the option names nothing. -/
  | lettered
  /-- Behind every option, `=` is what a value follows; from a character on that is no option, the text is left over.
  A value `--` is as good as any other. -/
  | assigning
deriving DecidableEq, Repr

/-! ## Single arguments -/

/-- How text is attached to an option. -/
inductive Attachment where
  /-- After `=`, to an option spelled by its name. -/
  | named
  /-- After `=`, to an option spelled by a letter. -/
  | assigned
  /-- Directly behind a letter. -/
  | direct
deriving DecidableEq, Repr

/-- What a single argument is. -/
inductive Argument where
  | value
  /-- The mark after which there are no options. -/
  | mark
  | option (flag : Flag)
  | attached (flag : Flag) (attachment : Attachment) (text : List Char)
  | unknown
deriving DecidableEq, Repr

/-- Splits a text at its first `=`. -/
def splitAssignment (s : List Char) : List Char × Option (List Char) :=
  match s.dropWhile (· != '=') with
  | [] => (s, none)
  | _ :: value => (s.takeWhile (· != '='), some value)

/-- Whether a text looks like a negative number: digits, or digits after a point. -/
def isNegativeNumber (s : List Char) : Bool :=
  match s with
  | '-' :: digits =>
    let whole := digits.takeWhile Text.isDecimal
    match digits.dropWhile Text.isDecimal with
    | [] | ['\n'] => !whole.isEmpty
    | '.' :: fraction =>
      let places := fraction.takeWhile Text.isDecimal
      !places.isEmpty && [[], ['\n']].contains (fraction.dropWhile Text.isDecimal)
    | _ => false
  | _ => false

/-- The option with exactly the given spelling. -/
def exactly (s : List Char) : Option Flag := spellingTable.lookup (String.ofList s)

/-- The spellings that an abbreviation may stand for. -/
def abbreviated (s : List Char) : List (String × Flag) :=
  spellingTable.filter fun entry => s.isPrefixOf entry.1.toList

/-- What an argument is that is no known spelling by itself. -/
def unspelled (s : List Char) : Argument :=
  if isNegativeNumber s || s.contains ' ' then .value else .unknown

/-- What an argument is that starts with two dashes. -/
def classifyLong (s : List Char) : Except Stop Argument :=
  let (name, value) := splitAssignment s
  match abbreviated name with
  | [] => .ok (unspelled s)
  | [(_, flag)] => .ok <| match value with
    | some text => .attached flag .named text
    | none => .option flag
  | matched =>
    let choices := ", ".intercalate (matched.map Prod.fst)
    .error (.misuse s!"ambiguous option: {String.ofList s} could match {choices}")

/-- What an argument is that starts with one dash. -/
def classifyShort (s : List Char) : Argument :=
  match exactly (s.take 2) with
  | some flag => .attached flag .direct (s.drop 2)
  | none => unspelled s

/-- What an argument is. -/
def classify (argument : String) : Except Stop Argument :=
  let s := argument.toList
  match exactly s with
  | some flag => .ok (.option flag)
  | none =>
    match splitAssignment s with
    | (name, some text) =>
      match exactly name with
      | some flag => .ok (.attached flag (if name.length == 2 then .assigned else .named) text)
      | none => spelled s
    | (_, none) => spelled s
where
  /-- What an argument is whose text up to `=` is no spelling. -/
  spelled : List Char → Except Stop Argument
    | '-' :: '-' :: rest => classifyLong ('-' :: '-' :: rest)
    | '-' :: c :: rest => .ok (classifyShort ('-' :: c :: rest))
    | _ => .ok .value

/-- Classifies the arguments up to the mark; all after it are values. -/
def classifyAll : List String → Except Stop (List (String × Argument))
  | [] => .ok []
  | argument :: rest =>
    if argument == "--" then .ok ((argument, .mark) :: rest.map (·, .value))
    else do
      let here ← classify argument
      return (argument, here) :: (← classifyAll rest)

/-! ## All arguments -/

/-- What an option with a path as its value asks for. -/
inductive Place where
  | absent
  /-- The value is the mark `--`, which names no path. -/
  | unnamed
  | named (path : FilePath)
deriving DecidableEq, Repr

/-- The place that the value of an option names. -/
def Place.ofValue (convention : Convention) (value : String) : Place :=
  if convention == .lettered && value == "--" then .unnamed else .named (FilePath.ofString value)

/-- What the options ask for. -/
structure Options where
  bin : Bool := false
  crateDir : Place := .absent
  root : Place := .absent
  prune : Bool := false
  output : Place := .absent
  verbose : Bool := false
deriving DecidableEq, Repr

section

variable (convention : Convention)

/-- Takes an option into account. -/
def Options.set (o : Options) (flag : Flag) (value : String) : Except Stop Options :=
  match flag with
  | .help => .error .help
  | .bin => .ok { o with bin := true }
  | .crateDir => .ok { o with crateDir := .ofValue convention value }
  | .root => .ok { o with root := .ofValue convention value }
  | .prune => .ok { o with prune := true }
  | .output => .ok { o with output := .ofValue convention value }
  | .verbose => .ok { o with verbose := true }

/-- Takes options into account one after another. -/
def Options.setAll (o : Options) : List (Flag × String) → Except Stop Options
  | [] => .ok o
  | (flag, value) :: rest => do (← o.set convention flag value).setAll rest

/-- What one argument says: options with their values, an option whose value is the next argument, and what
is left over. -/
structure Reading where
  /-- The options that are complete. -/
  settings : List (Flag × String) := []
  /-- The option that still needs a value. -/
  owed : Option Flag := none
  /-- The part of the argument that is no option. -/
  stray : List String := []
deriving DecidableEq, Repr

/-- Reads an option with nothing attached. -/
def readBare (flag : Flag) : Reading :=
  if flag.takesValue then { owed := some flag } else { settings := [(flag, "")] }

/-- Whether short options may follow an option without value, as the text attached that starts with `first`. -/
def Convention.goesOn : Convention → Attachment → Char → Bool
  | .lettered, attachment, _ => attachment != .named
  | .assigning, attachment, first => attachment == .direct && first != '-'

/-- Reads an option without value when no option has the first letter of the text attached. -/
def readStray (flag : Flag) (text : List Char) : Except Stop Reading :=
  match convention with
  | .lettered => .error (.ignored flag text)
  | .assigning => .ok { settings := [(flag, "")], stray := [String.ofList ('-' :: text)] }

/-- Reads an option with text attached. The text is the value of the option if it has one. Behind a short
option without value, the first letter is a further short option and the rest is attached to it. -/
def readAttached (flag : Flag) (attachment : Attachment) : List Char → Except Stop Reading
  | [] => if flag.takesValue then .ok { settings := [(flag, "")] } else .error (.ignored flag [])
  | c :: rest =>
    if flag.takesValue then .ok { settings := [(flag, String.ofList (c :: rest))] }
    else if !convention.goesOn attachment c then .error (.ignored flag (c :: rest))
    else match exactly ['-', c] with
      | none => readStray convention flag (c :: rest)
      | some next => do
        let tail ← match rest with
          | [] => pure (readBare next)
          | '=' :: text =>
            if convention == .assigning then readAttached next .assigned text
            else readAttached next .direct ('=' :: text)
          | text => readAttached next .direct text
        return { tail with settings := (flag, "") :: tail.settings }

/-- Reads classified arguments, given the options set and the text left over so far. -/
def consume : List (String × Argument) → Options → List String → Except Stop (Options × List String)
  | [], o, left => .ok (o, left)
  | (argument, what) :: rest, o, left =>
    match reading? what with
    | none => consume rest o (left ++ [argument])
    | some (.error stop) => .error stop
    | some (.ok reading) =>
      match reading.owed, rest with
      | none, rest => do consume rest (← o.setAll convention reading.settings) (left ++ reading.stray)
      | some flag, (value, .value) :: rest => do
        consume rest (← o.setAll convention (reading.settings ++ [(flag, value)])) left
      | some flag, _ => .error (.about flag "expected one argument")
where
  /-- How an argument is read, if it is an option. -/
  reading? : Argument → Option (Except Stop Reading)
    | .option flag => some (.ok (readBare flag))
    | .attached flag attachment text => some (readAttached convention flag attachment text)
    | .value | .mark | .unknown => none

/-- The options that the arguments ask for. -/
def Options.parse (arguments : List String) : Except Stop Options := do
  let (options, left) ← consume convention (← classifyAll arguments) {} []
  if left.isEmpty then return options
  else throw (.misuse ("unrecognized arguments: " ++ " ".intercalate left))

end

end CrateFold.Cli
