import GraphSelect.Settings.Basic

/-!
# Settings from the environment

Each setting has an environment variable. A file of variables can supply those that the environment
leaves open: it has one variable a line, written `NAME=value`. Blank lines and lines that start
with a hash sign are skipped. A value may be quoted; outside quotes it ends at the first blank,
after which only a comment may follow. Reading stops at the first line that is not of this form.
-/

set_option autoImplicit false

namespace GraphSelect

/-! ## Sizes -/

/-- One more digit of a size. -/
def sizeDigit (n : Nat) (c : Char) : Except SizeProblem Nat :=
  if c.isDigit then
    let next := n * 10 + (c.toNat - '0'.toNat)
    if next < UInt64.size then .ok next else .error .tooLarge
  else .error .badDigit

/-- The size that a text stands for: decimal digits, after a plus sign or not, below `2^64`. The
first character that spoils it decides what is said. -/
def sizeOfText (text : String) : Except SizeProblem Nat :=
  match text.toList with
  | [] => .error .empty
  | ['+'] => .error .badDigit
  | '+' :: digits => digits.foldlM sizeDigit 0
  | digits => digits.foldlM sizeDigit 0

/-! ## Variables -/

abbrev Environment := List (String × String)

/-- A size in a variable, or the default. -/
def Environment.size (env : Environment) (name : String) (default : Nat) :
    Except SettingsError Nat :=
  match env.lookup name with
  | none => .ok default
  | some value => (sizeOfText value).mapError (.size name value)

/-- A placement in a variable, or the default. -/
def Environment.placement (env : Environment) (name : String) (default : FilterPlacement) :
    Except SettingsError FilterPlacement :=
  match env.lookup name with
  | none => .ok default
  | some value =>
    match FilterPlacement.ofText? value with
    | some p => .ok p
    | none => .error (.placement name value)

/-- The settings that the environment holds, checked. -/
def Settings.ofEnvironment (env : Environment) : Except SettingsError Settings := do
  let defaults : Settings := {}
  let pageSize ← env.size "SQLGREMLIN_PAGE_SIZE" defaults.pageSize
  let fetchSize ← env.size "SQLGREMLIN_FETCH_BATCH_SIZE" defaults.fetchSize
  let workerPrefix := (env.lookup "SQLGREMLIN_WORKER_PREFIX").getD defaults.workerPrefix
  let placement ← env.placement "SQLGREMLIN_WHERE_PLACEMENT" defaults.placement
  Settings.check ⟨pageSize, fetchSize, workerPrefix, placement⟩

/-! ## A file of variables -/

namespace VariableFile

/-- Where in a value a reader is. -/
inductive Place where
  | bare
  | single
  | double
  | after
deriving DecidableEq

def unescape? (c : Char) : Option Char :=
  if c == 'n' then some '\n'
  else if [0x5C, 0x27, 0x22, 0x24, 0x20].contains c.toNat then some c
  else none

/-- The text of a value, as far as it is read. -/
def value? : Place → List Char → List Char → Option (List Char)
  | .bare, out, [] => some out.reverse
  | .after, out, [] => some out.reverse
  | _, _, [] => none
  | .after, out, c :: rest =>
    if c == ' ' || c == '\t' then value? .after out rest
    else if c == '#' then some out.reverse
    else none
  | .single, out, c :: rest =>
    if c.toNat == 0x27 then value? .bare out rest else value? .single (c :: out) rest
  | place, out, c :: rest =>
    if c.toNat == 0x5C then
      match rest with
      | d :: rest => do
        let e ← unescape? d
        value? place (e :: out) rest
      | [] => if place = .bare then some out.reverse else none
    else if c.toNat == 0x22 then
      value? (if place = .bare then .double else .bare) out rest
    else if place = .bare then
      if c.toNat == 0x27 then value? .single out rest
      else if c == ' ' || c == '\t' then value? .after out rest
      else value? .bare (c :: out) rest
    else value? place (c :: out) rest

/-- Whether a name of a variable may start with this character. -/
def startsName (c : Char) : Bool :=
  c.isAlpha || c == '_'

/-- Whether a name of a variable may hold this character. -/
def inName (c : Char) : Bool :=
  c.isAlphanum || c == '_' || c == '.'

/-- A name at the start of a line, and what follows it and the blanks after it. -/
def name? : List Char → Option (String × List Char)
  | [] => none
  | c :: rest =>
    if startsName c then
      some (String.ofList (c :: rest.takeWhile inName),
        (rest.dropWhile inName).dropWhile Text.isBlank)
    else none

/-- The name on a line and what stands behind its equals sign. The word `export` may come first. -/
def split? (line : List Char) : Option (String × List Char) := do
  let (name, rest) ← name? line
  match rest with
  | '=' :: value => some (name, value)
  | _ =>
    if name == "export" then
      let (name, rest) ← name? rest
      match rest with
      | '=' :: value => some (name, value)
      | _ => none
    else none

def assignment? (line : List Char) : Option (String × String) := do
  let (name, rest) ← split? line
  match rest.dropWhile Text.isBlank with
  | [] => some (name, "")
  | '#' :: _ => some (name, "")
  | value => do
    let value ← value? .bare [] value
    some (name, String.ofList value)

/-- Whether a line says nothing. -/
def isSilent (line : List Char) : Bool :=
  match line with
  | [] => true
  | c :: _ => c == '#'

/-- A line without the carriage return that may end it. -/
def withoutReturn (line : List Char) : List Char :=
  if line.getLast? = some '\r' then line.dropLast else line

/-- The variables on the lines, up to the first line that cannot be read. -/
def assignments : List (List Char) → Environment
  | [] => []
  | line :: rest =>
    let line := (withoutReturn line).dropWhile Text.isBlank
    if isSilent line then assignments rest
    else match assignment? line with
      | some v => v :: assignments rest
      | none => []

end VariableFile

/-- The environment with the variables of a file behind its own: what is set already stays, and of
two lines for one name the first counts. -/
def Environment.withFile (env : Environment) (text : String) : Environment :=
  env ++ VariableFile.assignments (text.toList.splitOn '\n')

end GraphSelect
