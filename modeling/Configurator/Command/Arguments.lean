import Configurator.Text

/-!
# Words of a command line

A command line is a list of words. Some are switches, with a value or without, and the others are
operands. Switches can be written long (`--name`, `--name=value`) or short (`-n`, `-nvalue`, several of
them in one word); a value may also be the next word. Behind two dashes all words are operands.
-/

namespace Configurator.Command

/-- A named setting of a command. -/
structure Switch where
  name : String
  letter : Option Char := none
  takesValue : Bool := true
  /-- Whether the value is a path, which cannot be empty. -/
  isPath : Bool := false
  /-- Whether it may be given several times. -/
  repeats : Bool := false
  deriving DecidableEq, Inhabited, Repr

/-- Why a command line is not carried out. -/
inductive Halt where
  /-- It asks for help. -/
  | help
  | misuse
  deriving DecidableEq, Inhabited, Repr

/-- What words can be given. -/
structure Form where
  switches : List Switch
  /-- Names and letters of switches that ask for help. -/
  questions : List (String × Char) := [("help", 'h')]
  /-- How many operands there may be, unless any number. -/
  operands : Option Nat
  /-- Words that end this form, and that others belong to. -/
  commands : List String := []
  deriving Inhabited

/-- What has been given. -/
structure Given where
  /-- Switches by name in the order in which they were given; the value is empty if there is none. -/
  switches : List (String × String) := []
  operands : List String := []
  deriving DecidableEq, Inhabited, Repr

namespace Given

/-- The value of a switch. -/
def value? (g : Given) (name : String) : Option String :=
  g.switches.lookup name

/-- All values of a switch. -/
def values (g : Given) (name : String) : List String :=
  (g.switches.filter (·.1 = name)).map (·.2)

def has (g : Given) (name : String) : Bool :=
  (g.value? name).isSome

end Given

namespace Form

/-- Adds a switch to what has been given. -/
def addSwitch (given : Given) (s : Switch) (value : String) : Except Halt Given :=
  if given.has s.name && !s.repeats then .error .misuse
  else if s.isPath && value = "" then .error .misuse
  else .ok { given with switches := given.switches ++ [(s.name, value)] }

/-- Adds an operand to what has been given. -/
def addOperand (form : Form) (given : Given) (word : String) : Except Halt Given :=
  if form.operands.any (· ≤ given.operands.length) then .error .misuse
  else .ok { given with operands := given.operands ++ [word] }

/-- Reads a word of letters behind a dash, and names the switch whose value is still to come. -/
def readLetters (form : Form) (given : Given) : List Char → Except Halt (Given × Option Switch)
  | [] => .ok (given, none)
  | c :: cs =>
    match form.switches.find? (·.letter = some c) with
    | none => .error (if form.questions.any (·.2 = c) then .help else .misuse)
    | some s =>
      if s.takesValue then
        match cs with
        | [] => .ok (given, some s)
        | '=' :: value => (addSwitch given s (String.ofList value)).map (·, none)
        | value => (addSwitch given s (String.ofList value)).map (·, none)
      else do readLetters form (← addSwitch given s "") cs

/-- Reads a word behind two dashes, and names the switch whose value is still to come. -/
def readName (form : Form) (given : Given) (word : List Char) :
    Except Halt (Given × Option Switch) :=
  let name := String.ofList (word.takeWhile (· ≠ '='))
  let value := (word.dropWhile (· ≠ '=')).tail?.map String.ofList
  match form.switches.find? (·.name = name), value with
  | none, none => .error (if form.questions.any (·.1 = name) then .help else .misuse)
  | none, some _ => .error .misuse
  | some s, none =>
    if s.takesValue then .ok (given, some s) else (addSwitch given s "").map (·, none)
  | some s, some value =>
    if s.takesValue then (addSwitch given s value).map (·, none) else .error .misuse

/-- Reads a word, and names the switch whose value is still to come. A single dash is an operand. -/
def readWord (form : Form) (given : Given) (word : String) : Except Halt (Given × Option Switch) :=
  match word.toList with
  | '-' :: '-' :: name => form.readName given name
  | '-' :: c :: letters => form.readLetters given (c :: letters)
  | _ => (form.addOperand given word).map (·, none)

/-- Whether a word can be the value of the switch before it. -/
def isValue (word : String) : Bool :=
  word = "-" || word.toList.head? ≠ some '-'

/-- Reads words, and returns those from the first command on. -/
def read (form : Form) (given : Given) : List String → Except Halt (Given × List String)
  | [] => .ok (given, [])
  | word :: words =>
    if word ∈ form.commands then .ok (given, word :: words)
    else if word = "--" then do
      let given ← words.foldlM form.addOperand given
      return (given, [])
    else do
      let (given, pending) ← form.readWord given word
      match pending with
      | none => form.read given words
      | some s =>
        match words with
        | [] => throw .misuse
        | value :: words =>
          if isValue value then form.read (← addSwitch given s value) words else throw .misuse

end Form

end Configurator.Command
