import Verbatim.Tool.Cat
import Verbatim.Tool.Echo
import Verbatim.Tool.Printf
import Verbatim.Tool.Sleep
import Verbatim.Tool.Translate

/-!
The common utilities by name, and how a name is resolved to one of them.
-/

namespace Verbatim.Tool

def succeed : Program := fun call => { unread := call.input }

def refuse : Program := fun call => { status := .code 1, unread := call.input }

/-- The utilities by name. -/
def utilities : List (String × Program) :=
  [("cat", Cat.cat), ("true", succeed), ("false", refuse), ("echo", Echo.echo), ("printf", Printf.printf),
   ("tr", Translate.tr), ("sleep", Sleep.sleep)]

/-- What running a program by a name comes to. -/
inductive Lookup where
  | utility (program : Program)
  | shell
  | missing
  | denied
  | notDirectory
  | tooLong

/-- The program of a name. -/
def installed (name : Bytes) : Lookup :=
  if name == bytesOf "sh" || name == bytesOf "dash" then .shell
  else ((utilities.lookup (String.ofList name)).map .utility).getD .missing

/-- Finds a program by a path, or by a name in the usual directories. Directories and other files are no
programs. -/
def lookUp (files : Files) (name : Bytes) : Lookup :=
  if name.contains '/' then
    match files.look name with
    | .host path => if Files.isProgram path then installed ((path.splitOn '/').getLastD []) else .denied
    | .file _ | .endless | .directory => .denied
    | .nothing => .missing
    | .throughFile => .notDirectory
    | .tooLong => .tooLong
  else if Files.partLimit < name.length then .tooLong
  else if name == ['.'] || name == ['.', '.'] then .denied
  else installed name

end Verbatim.Tool
