import Verbatim.Tool.Files

/-!
Programs as functions. A program is called with arguments, all of its input and a view of the files, and
ends with a status, what it wrote to its two outputs, what it left of its input, and the time it took.
-/

namespace Verbatim.Tool

structure Call where
  name : Bytes
  arguments : List Bytes := []
  input : Bytes := []
  environment : List (Bytes × Bytes) := []
  files : Files := {}

/-- Whether a program cannot be called so: an argument or a variable, with the byte behind it, is above 128
KiB, or all of them with their addresses are above 2 MiB. -/
def Call.isTooLarge (call : Call) : Bool :=
  let texts := call.name :: call.arguments ++ call.environment.map fun (name, value) => name ++ '=' :: value
  let sizes := texts.map fun text => text.length + 1
  sizes.any (131072 < ·) || 2097152 < sizes.foldl (· + ·) (8 * sizes.length)

inductive Outlet where
  | output
  | errors
deriving DecidableEq

/-- How a program ended. What it wrote is in order; the time is in milliseconds, and a program without
one never ends. -/
structure Completion where
  status : ExitStatus := .code 0
  written : List (Outlet × Bytes) := []
  unread : Bytes := []
  duration : Option Nat := some 1

def Completion.sent (done : Completion) (outlet : Outlet) : Bytes :=
  (done.written.filter (·.1 = outlet)).flatMap (·.2)

abbrev Program := Call → Completion

namespace Call

/-- Leaves the input alone and prints a text. -/
def prints (call : Call) (text : Bytes) : Completion := { written := [(.output, text)], unread := call.input }

def complaint (call : Call) (text : Bytes) : Outlet × Bytes :=
  (.errors, call.name ++ bytesOf ": " ++ text ++ ['\n'])

def hint (call : Call) : Outlet × Bytes :=
  (.errors, bytesOf "Try '" ++ call.name ++ bytesOf " --help' for more information.\n")

def fails (call : Call) (written : List (Outlet × Bytes)) : Completion :=
  { status := .code 1, written := written, unread := call.input }

def misused (call : Call) (text : Bytes) : Completion := call.fails [call.complaint text, call.hint]

end Call

end Verbatim.Tool
