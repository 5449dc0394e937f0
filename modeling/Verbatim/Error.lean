import Verbatim.Grammar
import Verbatim.Text.Utf8
import Verbatim.Violation
import Verbatim.Xml.Cause

/-!
Errors of conversions between source, tree and document. They are the outcome of a conversion that was
asked for properly; a fault also covers a broken contract.
-/

namespace Verbatim

inductive IoCause where
  | noSuchFile
  | notAllowed
  | notDirectory
  | nameTooLong
  | argumentsTooLong
  | zeroByte
  | notText (flaw : Utf8.Flaw)
deriving DecidableEq

def IoCause.message : IoCause → String
  | .noSuchFile => "No such file or directory (os error 2)"
  | .notAllowed => "Permission denied (os error 13)"
  | .notDirectory => "Not a directory (os error 20)"
  | .nameTooLong => "File name too long (os error 36)"
  | .argumentsTooLong => "Argument list too long (os error 7)"
  | .zeroByte => "nul byte found in provided data"
  | .notText flaw => flaw.message

inductive ExitStatus where
  | code (value : Nat)
  | signal (number : Nat)
deriving DecidableEq

namespace ExitStatus

def isSuccess : ExitStatus → Bool
  | .code value => value == 0
  | .signal _ => false

def signalNames : List String :=
  ["HUP", "INT", "QUIT", "ILL", "TRAP", "ABRT", "BUS", "FPE", "KILL", "USR1", "SEGV", "USR2", "PIPE", "ALRM", "TERM",
   "STKFLT", "CHLD", "CONT", "STOP", "TSTP", "TTIN", "TTOU", "URG", "XCPU", "XFSZ", "VTALRM", "PROF", "WINCH", "IO",
   "PWR", "SYS"]

def signalSuffix : Nat → String
  | 0 => ""
  | number + 1 =>
    match signalNames[number]? with
    | some name => " (SIG" ++ name ++ ")"
    | none => ""

def render : ExitStatus → String
  | .code value => "exit status: " ++ Numeral.decimal value
  | .signal number => "signal: " ++ Numeral.decimal number ++ signalSuffix number

end ExitStatus

/-- A time in the largest unit that it reaches, with the decimals it needs. -/
def renderMilliseconds (time : Nat) : String :=
  if time = 0 then "0ns"
  else if time < 1000 then Numeral.decimal time ++ "ms"
  else
    let decimals := (Numeral.decimal (1000 + time % 1000)).toList.drop 1
    let shown := (decimals.reverse.dropWhile (· == '0')).reverse
    Numeral.decimal (time / 1000) ++ (if shown.isEmpty then "" else "." ++ String.ofList shown) ++ "s"

inductive Error where
  | parse (diagnostic : Diagnostic)
  | malformedTree (cause : Xml.Cause) (offset : Nat)
  | toolTimeout (program : String) (milliseconds : Nat)
  | toolFailed (program : String) (status : ExitStatus) (output : String)
  | invalidXmlName (name : String)
  | unknownLanguage (name : String)
  | io (cause : IoCause)
deriving DecidableEq

def Error.message : Error → String
  | .parse diagnostic => "parse failure at " ++ diagnostic.render
  | .malformedTree cause offset =>
    "malformed tree: " ++ cause.message ++ " (at byte " ++ Numeral.decimal offset ++ ")"
  | .toolTimeout program milliseconds =>
    "`" ++ program ++ "` did not finish within " ++ renderMilliseconds milliseconds
  | .toolFailed program status output => "`" ++ program ++ "` failed with " ++ status.render ++ ": " ++ output
  | .invalidXmlName name => "`" ++ name ++ "` is not a valid XML name"
  | .unknownLanguage name => "no processor registered for `" ++ name ++ "`"
  | .io cause => "I/O error: " ++ cause.message

inductive Fault where
  | error (error : Error)
  | violation (violation : Violation)
deriving DecidableEq

/-- An outcome that can break contracts only, among those that can also fail. -/
def Fault.ofViolation : Except Violation α → Except Fault α
  | .ok value => .ok value
  | .error broken => .error (.violation broken)

end Verbatim
