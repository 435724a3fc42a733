import GraphSelect.Command.Run

/-!
# The program

Reads the files and the variables that the command may look at, and prints what the command says.
-/

set_option autoImplicit false

namespace GraphSelect.Command

def fetch (path : String) : IO (String × Except String String) := do
  try
    let text ← IO.FS.readFile path
    return (path, .ok text)
  catch
    | .noFileOrDirectory .. => return (path, .error "No such file or directory (os error 2)")
    | e => return (path, .error (toString e))

def environment : IO Environment :=
  variableNames.filterMapM fun name => do
    return (← IO.getEnv name).map fun value => (name, value)

end GraphSelect.Command

open GraphSelect.Command in
def main (args : List String) : IO UInt32 := do
  let contents ← (paths args).mapM fetch
  let files : Files := fun path =>
    (contents.lookup path).getD (.error "No such file or directory (os error 2)")
  match run files (← environment) args with
  | .ok text =>
    IO.print text
    return 0
  | .error failure =>
    IO.eprintln failure.message
    return failure.code
