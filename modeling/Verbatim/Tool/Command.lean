import Verbatim.Tool.Shell.Run

/-!
Running tools. A tool gets a text as its input and has to end with success, in time, and with a text as
its output. What it does is up to the host that it runs on.
-/

namespace Verbatim.Tool

/-- The programs that there are, or why a name is none. -/
abbrev Host := String → Except IoCause Program

def Host.standard : Host := fun name =>
  match lookUp {} (bytesOf name) with
  | .utility program => .ok program
  | .shell => .ok Shell.sh
  | .missing => .error .noSuchFile
  | .denied => .error .notAllowed
  | .notDirectory => .error .notDirectory
  | .tooLong => .error .nameTooLong

/-- A program, its arguments, and how long to wait for it, in milliseconds. -/
structure Command where
  program : String
  arguments : List String := []
  timeout : Nat := 30000

/-- Names and arguments are handed over as texts that end at a zero byte, so they can hold none. -/
def Command.hasZero (command : Command) : Bool :=
  (command.program :: command.arguments).any (·.toList.contains (Char.ofNat 0))

/-- Runs a tool on an input. A tool that is still running at the timeout has failed, whatever it wrote. -/
def Command.run (command : Command) (host : Host) (input : String) : Except Error String :=
  if command.hasZero then .error (.io .zeroByte)
  else
    match host command.program with
    | .error cause => .error (.io cause)
    | .ok program =>
      let call : Call := {
        name := bytesOf command.program
        arguments := command.arguments.map bytesOf
        input := bytesOf input }
      if call.isTooLarge then .error (.io .argumentsTooLong)
      else
        let done := program call
        if done.duration.all (command.timeout < ·) then .error (.toolTimeout command.program command.timeout)
        else if !done.status.isSuccess then
          .error (.toolFailed command.program done.status (Utf8.lossy (bufferOf (done.sent .errors))))
        else
          match Utf8.decode (bufferOf (done.sent .output)) with
          | .ok text => .ok text
          | .error flaw => .error (.io (.notText flaw))

end Verbatim.Tool
