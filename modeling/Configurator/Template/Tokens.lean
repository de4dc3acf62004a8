import Configurator.Catalog.Basic
import Configurator.Project.Basic
import Configurator.SourceLists
import Configurator.Text.Replace

/-!
# Tokens of templates

A token is a word that stands for a text. Where tokens occur in a template, their texts are put in
their place, those of longer tokens first, so that a token which begins with another one is not taken
for that. What is put in may hold tokens again; the replacing is repeated a limited number of times.
-/

namespace Configurator

/-- The texts that tokens stand for. -/
structure TokenTable where
  tokens : NameMap String
  deriving DecidableEq, Inhabited, Repr

namespace TokenTable

def get? (t : TokenTable) (token : String) : Option String :=
  t.tokens.get? token

def ofList (tokens : List (String × String)) : TokenTable :=
  ⟨.ofList tokens⟩

/-- Whether a token is replaced before another: the longer one in bytes, and of equally long ones the
lesser. -/
def precedes (a b : String × String) : Bool :=
  let m := Text.byteSize a.1.toList
  let n := Text.byteSize b.1.toList
  n < m || (m = n && a.1 ≤ b.1)

/-- The tokens with their texts in the order in which they are replaced. -/
def ordered (t : TokenTable) : List (String × String) :=
  t.tokens.entries.mergeSort precedes

/-- How often all tokens are replaced at most. -/
def maxPasses : Nat := 8

/-- Replaces each token in turn, and says whether any of them occurred when its turn came. -/
def pass (cs : List Char) : List (String × String) → Bool × List Char
  | [] => (false, cs)
  | (token, value) :: tokens =>
    if Text.contains token.toList cs then
      (true, (pass (Text.replace token.toList value.toList cs) tokens).2)
    else pass cs tokens

/-- Replaces all tokens again and again until none occurs, at most `passes` times. -/
def settle (tokens : List (String × String)) : (passes : Nat) → List Char → List Char
  | 0, cs => cs
  | passes + 1, cs =>
    match pass cs tokens with
    | (true, cs) => settle tokens passes cs
    | (false, cs) => cs

/-- The text with its tokens replaced. -/
def substitute (t : TokenTable) (text : String) : String :=
  String.ofList (settle t.ordered maxPasses text.toList)

/-! ## Tokens of a project -/

/-- Items as a list in a build script, one to a line, where each line is continued. -/
def continuedLines : List String → String
  | [] => ""
  | items => Text.join " \\\n\t" items ++ " \\"

/-- Any items as a list in a build script, in order and each once. -/
def formatList (items : List String) : String :=
  continuedLines (NameSet.ofList items).toList

/-- Variables of the build under the name of the project: those of the CPU that start with `MK_`. -/
def cpuParameters (project : String) (parameters : NameMap String) : String :=
  Text.join "\n" (parameters.entries.filterMap fun (key, value) =>
    (Text.dropPrefix? ['M', 'K', '_'] key.toList).map fun rest =>
      project ++ "_" ++ String.ofList rest ++ " = " ++ value)

mutual

/-- How a build script writes a value. The items of a tuple stand side by side. -/
def constantChars : Value → List Char
  | .str s => s.toList
  | .int n => Text.Integer.write n
  | .bool true => ['1']
  | .bool false => ['0']
  | .tuple [] => []
  | .tuple (v :: vs) => constantChars v ++ constantCharsAfter vs

/-- Items of a tuple after the first, each behind a space. -/
def constantCharsAfter : List Value → List Char
  | [] => []
  | v :: vs => ' ' :: constantChars v ++ constantCharsAfter vs

end

/-- The constants of some modules by name. Of modules with the same constant the last one counts. -/
def constantsOf (modules : List Module) : NameMap Value :=
  .ofList (modules.flatMap (·.constants.entries))

/-- Constants of enabled modules under the name of the project. -/
def moduleConstants (project : String) (c : Catalog) : String :=
  Text.join "\n" ((constantsOf c.enabledModules).entries.map fun (key, value) =>
    project ++ "_" ++ key ++ " = " ++ String.ofList (constantChars value))

/-- The tokens that each family has. -/
def commonTokens (p : Project) (sources : SourceLists) : List (String × String) :=
  let (start, stop) := p.toolchain.affixes
  [("$pname", p.name), ("$cpuclockfreq", p.clockFrequency), ("$cpuname", p.cpu.name),
    ("$cpuparameters", cpuParameters p.name p.cpu.buildParameters), ("$prefix", start),
    ("$suffix", stop), ("$main", p.name ++ "/main.c"),
    ("$cppasrc", continuedLines sources.preprocessed.toList),
    ("$cxxsrc", continuedLines sources.cxx.toList),
    ("$asrc", continuedLines sources.assembly.toList)]

/-- The tokens in which families differ: without a token for program memory all C sources are one
list. -/
def familyTokens (family : Template.Family) (p : Project) (c : Catalog) (sources : SourceLists) :
    List (String × String) :=
  if family.hasExtendedTokens then
    [("$csrc", continuedLines sources.c.toList),
      ("$pcsrc", continuedLines sources.programC.toList),
      ("$constants", moduleConstants p.name c)]
  else [("$csrc", continuedLines sources.mergeProgramMemory.c.toList)]

/-- The tokens of a project. -/
def ofProject (family : Template.Family) (p : Project) (c : Catalog) (sources : SourceLists) :
    TokenTable :=
  ofList (commonTokens p sources ++ familyTokens family p c sources)

end TokenTable

end Configurator
