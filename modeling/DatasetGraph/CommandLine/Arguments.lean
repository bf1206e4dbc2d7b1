/-!
# Arguments

The arguments of a command are options and operands in any order.  An option has a long name behind
two hyphens and may have a letter behind one; if it takes a value, the value is the next argument or
stands behind the name, `--name=value` or `-nvalue`.  Behind `--` everything is an operand, and a
single hyphen is one anywhere.

An argument that starts with a hyphen is never taken for the value of the option before it, so a
value that does has to stand behind the name.

Arguments are read from left to right, and the first that is not accepted or asks for help decides.
-/

namespace DatasetGraph.CommandLine

/-- An option of a command. -/
structure Flag where
  /-- The name behind two hyphens. -/
  long : String
  /-- The letter behind one hyphen. -/
  short : Option Char
  takesValue : Bool

/-- What a command accepts. -/
structure Accepted where
  flags : List Flag
  /-- The greatest number of operands; without it, there may be any number. -/
  most : Option Nat

/-- Why arguments are not carried out. -/
inductive Refusal where
  /-- They are not the arguments of any command. -/
  | usage
  /-- They ask for help. -/
  | help
deriving DecidableEq

/-! ## Single arguments -/

/-- What an argument is by itself. -/
inductive Word where
  | operand
  /-- The end of the options. -/
  | separator
  | long (name : String) (value : Option String)
  | short (letter : Char) (rest : List Char)

/-- The text behind the first equals sign, if there is one. -/
def valueOf (cs : List Char) : Option String :=
  match cs.dropWhile (· ≠ '=') with
  | _ :: value => some (String.ofList value)
  | [] => none

/-- What an argument is. -/
def Word.ofChars : List Char → Word
  | ['-', '-'] => .separator
  | '-' :: '-' :: cs => .long (String.ofList (cs.takeWhile (· ≠ '='))) (valueOf cs)
  | '-' :: c :: cs => .short c cs
  | _ => .operand

/-- What an argument is. -/
def Word.of (arg : String) : Word := .ofChars arg.toList

/-! ## All arguments -/

/-- The options and operands of a command. -/
structure Arguments where
  /-- The long names of the options that were given, with their values, if any. -/
  options : List (String × String)
  operands : List String
deriving DecidableEq

namespace Arguments

/-- No arguments. -/
def none : Arguments := ⟨[], []⟩

/-- Add an option, which must not be there yet. -/
def give (a : Arguments) (name value : String) : Except Refusal Arguments :=
  if a.options.any fun o => o.1 = name then .error .usage
  else .ok { a with options := a.options ++ [(name, value)] }

/-- Add an operand, unless there are enough. -/
def giveOperand (a : Arguments) (most : Option Nat) (arg : String) : Except Refusal Arguments :=
  if most.any fun n => n ≤ a.operands.length then .error .usage
  else .ok { a with operands := a.operands ++ [arg] }

/-- Add an option with what stands behind its name.  The result names the option if its value has
still to come. -/
def giveFlag (a : Arguments) (f : Flag) : Option String → Except Refusal (Arguments × Option String)
  | some value => if f.takesValue then return (← a.give f.long value, .none) else .error .usage
  | .none =>
    if f.takesValue then .ok (a, some f.long) else return (← a.give f.long "", .none)

/-- The value in what stands behind the letter of an option. -/
def attached : List Char → Option String
  | [] => .none
  | '=' :: value => some (String.ofList value)
  | value => some (String.ofList value)

/-- Add what an argument is to the arguments before it. -/
def add (accepted : Accepted) (a : Arguments) (arg : String) :
    Word → Except Refusal (Arguments × Option String)
  | .operand | .separator => return (← a.giveOperand accepted.most arg, .none)
  | .long name value =>
    match accepted.flags.find? fun f => f.long = name with
    | some f => a.giveFlag f value
    | .none => .error (if name = "help" ∧ value = .none then .help else .usage)
  | .short letter rest =>
    match accepted.flags.find? fun f => f.short = some letter with
    | some f => a.giveFlag f (attached rest)
    | .none => .error (if letter = 'h' then .help else .usage)

/-- Read arguments on from those that have been read.  `due` is the option whose value comes
next. -/
def readFrom (accepted : Accepted) : (due : Option String) → Arguments → List String →
    Except Refusal Arguments
  | .none, a, [] => .ok a
  | some _, _, [] => .error .usage
  | some name, a, arg :: rest =>
    match Word.of arg with
    | .operand => do readFrom accepted .none (← a.give name arg) rest
    | _ => .error .usage
  | .none, a, arg :: rest =>
    match Word.of arg with
    | .separator => rest.foldlM (fun a arg => a.giveOperand accepted.most arg) a
    | word => do
      let (a, due) ← a.add accepted arg word
      readFrom accepted due a rest

/-- Read the arguments of a command. -/
def read (accepted : Accepted) (args : List String) : Except Refusal Arguments :=
  readFrom accepted .none .none args

/-- Whether an option was given. -/
def has (a : Arguments) (name : String) : Bool := a.options.any fun o => o.1 = name

/-- The value of an option, or the default. -/
def value (a : Arguments) (name default : String) : String := (a.options.lookup name).getD default

/-- The only operand. -/
def operand (a : Arguments) : Except Refusal String :=
  match a.operands with
  | [x] => .ok x
  | _ => .error .usage

end Arguments

end DatasetGraph.CommandLine
