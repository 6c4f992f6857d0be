import ScalarLang.Number.Integer
import ScalarLang.Text.Quoted

/-!
# Options

The arguments of the command line: flags first, then file names. A flag starts with one or two
dashes and may carry its value after an equals sign; a flag that is no switch may also take the
next argument as its value. Flags end at the first argument that is none, or after two dashes.
Of several settings of a flag the last one counts.
-/

namespace ScalarLang.CommandLine

/-- When diagnostics are coloured. -/
inductive ColorMode
  | auto
  | always
  | never
  deriving DecidableEq, Repr, Inhabited

/-- The colour mode of a given name; other names leave the choice to the terminal. -/
def ColorMode.ofName (name : String) : ColorMode :=
  if name = "always" then always else if name = "never" then never else auto

/-- What the flags choose. -/
structure Options where
  ast : Bool
  symbols : Bool
  color : ColorMode
  /-- How many files are to be worked on at once; it makes no difference to the result. -/
  workers : Int
  deriving DecidableEq, Repr, Inhabited

/-- What holds without flags. -/
def Options.default : Options := ⟨false, false, .auto, 0⟩

/-- The flags. -/
inductive Flag
  | ast
  | color
  | workers
  | symbols
  deriving DecidableEq, Repr, Inhabited

namespace Flag

/-- The name of a flag. -/
def name : Flag → String
  | ast => "ast"
  | color => "color"
  | workers => "j"
  | symbols => "symbols"

/-- The flag with a given name. -/
def ofName? (name : String) : Option Flag :=
  [ast, color, workers, symbols].find? (·.name = name)

/-- Whether a flag is set by its name alone. -/
def isSwitch : Flag → Bool
  | ast | symbols => true
  | color | workers => false

end Flag

/-- What is wrong with the flags. -/
inductive FlagError
  | badSyntax (argument : String)
  | undefined (name : String)
  | needsArgument (flag : Flag)
  | invalidSwitch (flag : Flag) (value : String)
  | invalidInteger (flag : Flag) (value : String) (reason : Integer.Error)
  deriving DecidableEq, Repr, Inhabited

/-- The wording of an error. -/
def FlagError.message : FlagError → String
  | badSyntax argument => "bad flag syntax: " ++ argument
  | undefined name => "flag provided but not defined: -" ++ name
  | needsArgument flag => "flag needs an argument: -" ++ flag.name
  | invalidSwitch flag value =>
    "invalid boolean value " ++ Text.quoted value ++ " for -" ++ flag.name ++ ": parse error"
  | invalidInteger flag value reason =>
    "invalid value " ++ Text.quoted value ++ " for flag -" ++ flag.name ++ ": " ++ reason.message

/-- What an argument is by its form. -/
inductive Argument
  /-- Not a flag. -/
  | operand
  /-- The end of the flags. -/
  | terminator
  /-- A flag that is not written as one. -/
  | malformed
  /-- A flag and its value, if it carries one. -/
  | flag (name : String) (value : Option String)
  deriving DecidableEq, Repr, Inhabited

namespace Argument

/-- A flag from what follows its dashes. -/
def ofBody (body : List Char) : Argument :=
  match body with
  | [] | '-' :: _ | '=' :: _ => malformed
  | body =>
    let name := String.ofList (body.takeWhile (· != '='))
    match body.dropWhile (· != '=') with
    | [] => flag name none
    | _ :: value => flag name (some (String.ofList value))

/-- The form of an argument. -/
def ofText (text : String) : Argument :=
  match text.toList with
  | ['-', '-'] => terminator
  | '-' :: '-' :: body => ofBody body
  | ['-'] => operand
  | '-' :: body => ofBody body
  | _ => operand

end Argument

/-- The truth value that a switch can be given. -/
def switchValue? (value : String) : Option Bool :=
  if ["1", "t", "T", "TRUE", "true", "True"].contains value then some true
  else if ["0", "f", "F", "FALSE", "false", "False"].contains value then some false
  else none

/-- The options after a flag has been given a value. -/
def Options.set (o : Options) (flag : Flag) (value : String) : Except FlagError Options :=
  match flag with
  | .ast =>
    match switchValue? value with
    | some b => .ok { o with ast := b }
    | none => .error (.invalidSwitch flag value)
  | .symbols =>
    match switchValue? value with
    | some b => .ok { o with symbols := b }
    | none => .error (.invalidSwitch flag value)
  | .color => .ok { o with color := .ofName value }
  | .workers =>
    match Integer.parse value with
    | .ok n => .ok { o with workers := n }
    | .error reason => .error (.invalidInteger flag value reason)

/-- What the arguments ask for. -/
inductive Request
  /-- To work on the named files. -/
  | work (options : Options) (names : List String)
  /-- To explain the flags. -/
  | help
  /-- Nothing that can be done. -/
  | refuse (reason : FlagError)
  deriving DecidableEq, Repr, Inhabited

/-- Reads the arguments on top of options that have been chosen already. -/
def Request.parse (o : Options) : List String → Request
  | [] => .work o []
  | argument :: rest =>
    match Argument.ofText argument with
    | .operand => .work o (argument :: rest)
    | .terminator => .work o rest
    | .malformed => .refuse (.badSyntax argument)
    | .flag name value? =>
      match Flag.ofName? name with
      | none => if name = "help" || name = "h" then .help else .refuse (.undefined name)
      | some flag =>
        match value?, rest with
        | some value, rest =>
          match o.set flag value with
          | .ok o => parse o rest
          | .error reason => .refuse reason
        | none, rest =>
          if flag.isSwitch then
            match o.set flag "true" with
            | .ok o => parse o rest
            | .error reason => .refuse reason
          else
            match rest with
            | [] => .refuse (.needsArgument flag)
            | value :: rest =>
              match o.set flag value with
              | .ok o => parse o rest
              | .error reason => .refuse reason

/-- What the arguments of a command line ask for. -/
def Request.ofArguments (arguments : List String) : Request :=
  parse .default arguments

/-- The explanation of the flags. -/
def usage : String :=
  "Usage of seasharp:\n" ++
  "  -ast\n    \tdump the analysed syntax tree\n" ++
  "  -color string\n    \tcolour diagnostics: auto, always or never (default \"auto\")\n" ++
  "  -j int\n    \tnumber of files analysed in parallel (0 = all)\n" ++
  "  -symbols\n    \tlist declared variables\n"

end ScalarLang.CommandLine
