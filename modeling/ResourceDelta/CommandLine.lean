import ResourceDelta.Batch
import ResourceDelta.Text.Digits
import ResourceDelta.Yaml.Readers

/-!
# The command line

The command line names one command, `compare`, and after it options and definition files in any
order.  A long option takes its value after an equals sign or as the next argument, a short one also
directly; a value that is an argument of its own must not start like an option.  Two hyphens end the
options.

`Batch.ofArguments?` reads the arguments as a batch; there is none if they are misused.  `Batch.run`
is the outcome of a batch over files of YAML.
-/

set_option autoImplicit false

namespace ResourceDelta

namespace CommandLine

/-! ## Options -/

/-- The options of the command. -/
inductive OptionName where
  | config
  | flavor
  | delta
  | left
  | right
  | indent
  deriving DecidableEq, Repr

namespace OptionName

/-- The long name of an option. -/
def long : OptionName → String
  | .config => "config"
  | .flavor => "flavor"
  | .delta => "delta"
  | .left => "left"
  | .right => "right"
  | .indent => "indent"

/-- All options. -/
def all : List OptionName :=
  [.config, .flavor, .delta, .left, .right, .indent]

/-- The option with a long name. -/
def ofLong? (name : List Char) : Option OptionName :=
  all.find? fun o => o.long.toList = name

/-- The option with a short name. -/
def ofShort? : Char → Option OptionName
  | 'c' => some .config
  | 'f' => some .flavor
  | _ => none

end OptionName

/-! ## Arguments -/

/-- One thing said on the command line. -/
inductive Item where
  | option (name : OptionName) (value : String)
  | definition (file : String)
  deriving DecidableEq, Repr

/-- What a single argument is. -/
inductive Argument where
  /-- The end of the options. -/
  | endOfOptions
  /-- An option, with its value if it is attached. -/
  | option (name : OptionName) (value : Option String)
  /-- Something that starts like an option and is none. -/
  | unknown
  /-- Anything else. -/
  | plain (text : String)
  deriving DecidableEq, Repr

/-- Tells what an argument is. -/
def Argument.read (text : String) : Argument :=
  match text.toList with
  | '-' :: '-' :: [] => .endOfOptions
  | '-' :: '-' :: rest =>
    match OptionName.ofLong? (rest.takeWhile (· ≠ '=')), rest.dropWhile (· ≠ '=') with
    | none, _ => .unknown
    | some name, [] => .option name none
    | some name, _ :: value => .option name (some (String.ofList value))
  | '-' :: letter :: rest =>
    match OptionName.ofShort? letter, rest with
    | none, _ => .unknown
    | some name, [] => .option name none
    | some name, '=' :: value => .option name (some (String.ofList value))
    | some name, value => .option name (some (String.ofList value))
  | _ => .plain text

/-- Reads the arguments after the command. -/
def readItems : List String → Option (List Item)
  | [] => some []
  | text :: rest =>
    match Argument.read text, rest with
    | .endOfOptions, rest => some (rest.map .definition)
    | .unknown, _ => none
    | .plain file, rest => do
      let items ← readItems rest
      return .definition file :: items
    | .option name (some value), rest => do
      let items ← readItems rest
      return .option name value :: items
    | .option _ none, [] => none
    | .option name none, value :: rest =>
      match Argument.read value with
      | .plain value => do
        let items ← readItems rest
        return .option name value :: items
      | _ => none

/-! ## Values of options -/

/-- The values given for an option. -/
def valuesOf (items : List Item) (name : OptionName) : List String :=
  items.filterMap fun
    | .option n value => if n = name then some value else none
    | .definition _ => none

/-- The value of an option, as `read` understands it; `none` if it is given twice or is not
understood, `none` inside if it is not given. -/
def optionValue {α : Type} (items : List Item) (name : OptionName) (read : String → Option α) :
    Option (Option α) :=
  match valuesOf items name with
  | [] => some none
  | [value] => (read value).map some
  | _ => none

/-- A text that is not empty. -/
def nonempty? (text : String) : Option String :=
  if text = "" then none else some text

/-- A number of one word, which may have a sign and leading zeros. -/
def wordNumber? (text : String) : Option Nat := do
  let digits :=
    match text.toList with
    | '+' :: digits => digits
    | digits => digits
  let n ← Text.number? 10 digits
  if n ≤ Text.maxWord then some n else none

/-- The batch that the things said on the command line ask for. -/
def batch? (items : List Item) : Option Batch := do
  let config ← optionValue items .config nonempty?
  let flavor ← optionValue items .flavor FlavorName.ofText?
  let delta ← optionValue items .delta some
  let left ← optionValue items .left some
  let right ← optionValue items .right some
  let indent ← optionValue items .indent wordNumber?
  let files := items.filterMap fun
    | .option .. => none
    | .definition file => some file
  guard (!files.isEmpty && files.all (· ≠ ""))
  let standard := Operands.standard
  return {
    config, flavor, indent := indent.getD 1, definitions := files
    operands :=
      ⟨delta.getD standard.delta, left.getD standard.left, right.getD standard.right⟩ }

end CommandLine

/-- The batch that the arguments of the program ask for. -/
def Batch.ofArguments? : List String → Option Batch
  | "compare" :: arguments => do
    let items ← CommandLine.readItems arguments
    CommandLine.batch? items
  | _ => none

/-- The outcome of a batch over files of YAML, if all that it writes can be written. -/
def Batch.run (b : Batch) (files : Files) : Outcome :=
  b.outcome .yaml files writeBehind

end ResourceDelta
