import Verbatim.Tool.Echo
import Verbatim.Tool.Printf
import Verbatim.Tool.Shell.Field
import Verbatim.Tool.Shell.State
import Verbatim.Tool.Shell.Test

/-!
Commands of the shell itself that run no other commands. They print, test and read, and change parameters,
variables, options and traps.
-/

namespace Verbatim.Tool.Shell

/-- Prints to the standard output. Answers the status. -/
def emit (text : Bytes) : Run Nat := do
  if ← write 1 text then return 0
  else
    complain (((← get).builtin.getD []) ++ bytesOf ": I/O error")
    return 1

/-- Takes leading options with known letters, up to two hyphens or an operand. -/
def takeOptions (letters : List Char) : List Bytes → Run (List Char × List Bytes)
  | [] => return ([], [])
  | argument :: rest =>
    match argument with
    | ['-', '-'] => return ([], rest)
    | '-' :: first :: more => do
      match (first :: more).find? fun letter => !letters.contains letter with
      | some letter => fail (bytesOf "Illegal option -" ++ [letter])
      | none =>
        let (given, operands) ← takeOptions letters rest
        return (first :: more ++ given, operands)
    | _ => return ([], argument :: rest)

def numeral (text : Bytes) : Run Nat := do
  match Numeral.magnitude? 10 text with
  | some value => if value < 2147483648 then return value else fail (bytesOf "Illegal number: " ++ text)
  | none => fail (bytesOf "Illegal number: " ++ text)

namespace Builtin

def argumentEscapes : EscapeRules where
  letters := "abefnrtv\\".toList
  longOctal := true
  stops := true
  covers := false

def dialect : FormatDialect where
  formatEscapes := { argumentEscapes with longOctal := false, stops := false }
  argumentEscapes := argumentEscapes
  flags := "#-+ 0".toList
  allows := fun _ letter => "diouxXfFeEgGcsb".toList.contains letter
  refusal := fun template =>
    if template.letter.isSome then template.spelling ++ bytesOf ": invalid directive"
    else bytesOf "missing format character"
  refusalStatus := 2
  bits := 53
  range := 1024
  cutsSizes := true
  tooWide := fun state => { state.complain (bytesOf "xvsnprintf failed") with ended := some 2 }
  shown := id
  notNumber := "expected numeric value"
  partNumber := "not completely converted"
  stopForgives := false
  warns := false

/-- Escapes are always replaced. -/
def echo (arguments : List Bytes) : Run Nat :=
  let isBare := arguments.head? == some (bytesOf "-n")
  let shown := argumentEscapes.unescape (spaced (if isBare then arguments.drop 1 else arguments))
  emit (if isBare || shown.stopped then shown.text else shown.text ++ ['\n'])

def printf (arguments : List Bytes) : Run Nat := do
  let (_, operands) ← takeOptions [] arguments
  match operands with
  | [] => fail (bytesOf "usage: printf format [arg ...]")
  | format :: arguments =>
    let done := Printing.run dialect format arguments
    let sent (outlet : Outlet) : List Bytes := (done.written.reverse.filter (·.1 = outlet)).map (·.2)
    (sent .errors).forM complain
    return max (← emit (sent .output).flatten) done.status

def test (arguments : List Bytes) : Run Nat := do
  match Test.evaluate (← get).files arguments with
  | .ok value => return if value then 0 else 1
  | .error message => fail message

def bracket (arguments : List Bytes) : Run Nat :=
  if arguments.getLast? == some [']'] then test arguments.dropLast else fail (bytesOf "missing ]")

/-- The line in front of a text, each byte with whether a backslash stood before it, whether it has an
end, and what follows it. Without `raw`, a backslash quotes the next byte and joins lines. -/
def lineAhead (raw : Bool) : (taken : List Marked) → Bytes → List Marked × Bool × Bytes
  | taken, [] => (taken.reverse, false, [])
  | taken, ['\\'] => if raw then ((('\\', false) :: taken).reverse, false, []) else (taken.reverse, false, [])
  | taken, '\\' :: c :: rest =>
    if raw then
      if c == '\n' then ((('\\', false) :: taken).reverse, true, rest)
      else lineAhead raw ((c, false) :: ('\\', false) :: taken) rest
    else if c == '\n' then lineAhead raw taken rest
    else lineAhead raw ((c, true) :: taken) rest
  | taken, c :: rest => if c == '\n' then (taken.reverse, true, rest) else lineAhead raw ((c, false) :: taken) rest

/-- The options of `read`, of which one has an argument that is not used here. -/
def readOptions : List Bytes → Run (Bool × List Bytes)
  | [] => return (false, [])
  | argument :: rest =>
    match argument with
    | ['-', '-'] => return (false, rest)
    | ['-', 'r'] => do
      let (_, names) ← readOptions rest
      return (true, names)
    | ['-', 'p'] =>
      match rest with
      | [] => fail (bytesOf "No arg for -p option")
      | _ :: rest => readOptions rest
    | '-' :: letter :: _ => fail (bytesOf "Illegal option -" ++ [letter])
    | _ => return (false, argument :: rest)

/-- Reads a line into variables. There is no success at the end of the input. -/
def read (arguments : List Bytes) : Run Nat := do
  let (raw, names) ← readOptions arguments
  match names, names.find? fun name => !isName name with
  | [], _ => fail (bytesOf "arg count")
  | _, some name => fail (name ++ bytesOf ": bad variable name")
  | names, none =>
    let (line, isWhole, rest) := lineAhead raw [] (← readable)
    leaveUnread rest
    let line := line.filter fun (c, _) => c.toNat != 0
    (distribute (← get).separators names line).forM fun (name, value) => assign name value
    return if isWhole then 0 else 1

def shift (arguments : List Bytes) : Run Nat := do
  let count ← (arguments.head?.map numeral).getD (pure 1)
  let state ← get
  if state.parameters.length < count then fail (bytesOf "can't shift that many")
  else
    set { state with parameters := state.parameters.drop count }
    return 0

def settings : List (Char × String) :=
  [('e', "errexit"), ('f', "noglob"), ('I', "ignoreeof"), ('i', "interactive"), ('m', "monitor"), ('n', "noexec"),
   ('s', "stdin"), ('x', "xtrace"), ('v', "verbose"), ('V', "vi"), ('E', "emacs"), ('C', "noclobber"),
   ('a', "allexport"), ('b', "notify"), ('u', "nounset"), ('p', "privileged")]

/-- Turns an option on or off. Those that are on are listed from the last one. -/
def turn (isOn : Bool) (letter : Char) : Run Unit :=
  modify fun state =>
    let chosen := if isOn then letter :: state.options else state.options.filter (· != letter)
    { state with options := (settings.reverse.map (·.1)).filter (chosen.contains ·) }

/-- Turns options by letters. Answers whether a word follows that names one. -/
def turnLetters (isOn : Bool) (letters : List Char) (extra : List Char) : Run Bool := do
  for letter in letters do
    if letter != 'o' && !extra.contains letter then
      if (settings.lookup letter).isSome then turn isOn letter
      else fail (bytesOf "Illegal option -" ++ [letter])
  return letters.contains 'o'

def turnWord (isOn : Bool) (word : Bytes) : Run Unit := do
  match settings.find? fun (_, full) => full.toList == word with
  | some (letter, _) => turn isOn letter
  | none => fail (bytesOf "Illegal option -o " ++ word)

/-- Sets options, and parameters if there are any or two hyphens ask for it. -/
def setFrom : List Bytes → Run Nat
  | [] => return 0
  | argument :: rest => do
    let parametersAre (values : List Bytes) : Run Nat := do
      modify fun state => { state with parameters := values }
      return 0
    let turned (isOn : Bool) (letters : List Char) : Run Nat := do
      if ← turnLetters isOn letters [] then
        match rest with
        | [] => return 0
        | word :: rest =>
          turnWord isOn word
          setFrom rest
      else setFrom rest
    match argument with
    | ['-', '-'] => parametersAre rest
    | ['-'] => if rest.isEmpty then return 0 else parametersAre rest
    | '-' :: letters => turned true letters
    | '+' :: letters => turned false letters
    | _ => parametersAre (argument :: rest)

/-- A value in single quotes, which a shell reads back. -/
def singleQuotes (value : Bytes) : Bytes :=
  '\x27' :: value.flatMap (fun c => if c == '\x27' then bytesOf "'\x22'\x22'" else [c]) ++ ['\x27']

/-- Variables in the order of their names, each as an assignment behind a word. -/
def listing (word : String) (shown : Variable → Bool) : Run Nat := do
  let held := (← get).bindings.filter fun (_, held) => shown held
  let sorted := held.mergeSort fun (left, _) (right, _) => !Test.before right left
  emit (sorted.flatMap fun (name, held) =>
    bytesOf word ++ name ++ (held.value.map fun value => '=' :: singleQuotes value).getD [] ++ ['\n'])

def setOptions (arguments : List Bytes) : Run Nat :=
  if arguments.isEmpty then listing "" (·.value.isSome) else setFrom arguments

def declared (argument : Bytes) : Run (Bytes × Option Bytes) := do
  let name := argument.takeWhile (· != '=')
  if isName name then
    return (name, if name.length < argument.length then some (argument.drop (name.length + 1)) else none)
  else fail (name ++ bytesOf ": bad variable name")

def declare (word : String) (isMarked : Variable → Bool) (mark : Variable → Variable) (arguments : List Bytes) :
    Run Nat := do
  let (given, operands) ← takeOptions ['p'] arguments
  if given.contains 'p' || operands.isEmpty then listing (word ++ " ") isMarked
  else
    for operand in operands do
      let (name, value) ← declared operand
      if let some value := value then assign name value
      modify fun state => state.put name (some (mark ((state.bindings.lookup name).getD {})))
    return 0

def unset (arguments : List Bytes) : Run Nat := do
  let (given, operands) ← takeOptions ['f', 'v'] arguments
  for name in operands do
    if given.contains 'f' then
      modify fun state => { state with functions := state.functions.filter (·.1 != name) }
    else
      let (name, _) ← declared name
      if ((← get).bindings.lookup name).any (·.readOnly) then fail (name ++ bytesOf ": is read only")
      else modify fun state => state.put name none
  return 0

def localVariables (arguments : List Bytes) : Run Nat := do
  match (← get).hidden with
  | [] => fail (bytesOf "not in a function")
  | _ =>
    for argument in arguments do
      let (name, value) ← declared argument
      modify fun state =>
        match state.hidden with
        | inner :: outer => { state with hidden := ((name, state.bindings.lookup name) :: inner) :: outer }
        | [] => state
      if let some value := value then assign name value
    return 0

def cd (arguments : List Bytes) : Run Nat := do
  let (_, operands) ← takeOptions ['L', 'P'] arguments
  let state ← get
  let target : Option Bytes :=
    match operands with
    | [] => state.held? (bytesOf "HOME")
    | ['-'] :: _ => state.held? (bytesOf "OLDPWD")
    | name :: _ => some name
  match target with
  | none => return 0
  | some name =>
    if name.isEmpty || state.files.look name = .directory then
      let path := state.files.locate name
      assign (bytesOf "OLDPWD") state.here
      assign (bytesOf "PWD") path
      modify fun state => { state with here := path }
      if operands.head? == some ['-'] then emit (path ++ ['\n']) else return 0
    else fail (bytesOf "can't cd to " ++ name)

def pwd : Run Nat := do emit ((← get).here ++ ['\n'])

/-- The signals by name, with the end of the shell as the first one. -/
def signalNumber? (text : Bytes) : Option Nat :=
  match Numeral.magnitude? 10 text with
  | some number => if number ≤ 64 then some number else none
  | none =>
    let name := String.ofList (text.map Char.toUpper)
    if name == "EXIT" then some 0 else (ExitStatus.signalNames.idxOf? name).map (· + 1)

def signalName (number : Nat) : Bytes :=
  match number with
  | 0 => bytesOf "EXIT"
  | before + 1 => (ExitStatus.signalNames[before]?.map bytesOf).getD (Numeral.decimal number).toList

def trap (arguments : List Bytes) : Run Nat := do
  let (_, operands) ← takeOptions [] arguments
  match operands with
  | [] =>
    let sorted := (← get).traps.mergeSort fun left right => left.1 ≤ right.1
    emit (sorted.flatMap fun (signal, action) =>
      bytesOf "trap -- " ++ singleQuotes action ++ [' '] ++ signalName signal ++ ['\n'])
  | first :: rest =>
    let action := if rest.isEmpty || first == ['-'] then none else some first
    for name in (if rest.isEmpty then operands else rest) do
      match signalNumber? name with
      | none =>
        discard (write 2 (bytesOf "trap: " ++ name ++ bytesOf ": bad trap\n"))
        return 1
      | some signal =>
        modify fun state =>
          let others := state.traps.filter (·.1 != signal)
          { state with traps := match action with
              | some action => (signal, action) :: others
              | none => others }
    return 0

/-- Signals that do nothing, and signals that stop a program, unless they are trapped. -/
def harmless : List Nat := [17, 18, 23, 28]

def stopping : List Nat := [19, 20, 21, 22]

def deliver (signal : Nat) : Run Unit := do
  let state ← get
  let action := if signal = 9 || signal = 19 || state.isSubshell then none else state.traps.lookup signal
  match action with
  | some [] => return
  | some _ => modify fun state => { state with arrived := state.arrived ++ [signal] }
  | none =>
    if signal = 0 || harmless.contains signal then return
    else if stopping.contains signal then throw .endless
    else throw (.killed state.number signal)

/-- Sends a signal to a process: to this shell, or to a job that has not been carried out. -/
def send (signal : Nat) (target : Bytes) : Run Nat := do
  let number ← numeral target
  let state ← get
  if number = state.number then
    deliver signal
    return 0
  else if state.ancestors.contains number then
    if signal = 0 then return 0 else throw (.killed number signal)
  else if state.jobs.any (·.number = number) then
    if signal != 0 && !harmless.contains signal then
      modify fun state => { state with
        jobs := state.jobs.filter (·.number != number)
        finished := (number, 128 + signal) :: state.finished }
    return 0
  else
    complain (bytesOf "No such process\n")
    return 1

def killUsage : String :=
  "Usage: kill [-s sigspec | -signum | -sigspec] [pid | job]... or\nkill -l [exitstatus]"

def kill (arguments : List Bytes) : Run Nat := do
  let sendAll (signal : Nat) (targets : List Bytes) : Run Nat := do
    if targets.isEmpty then fail (bytesOf killUsage)
    else
      let results ← targets.mapM (send signal)
      return results.foldl max 0
  match arguments with
  | ['-', 'l'] :: rest =>
    match rest with
    | [] => emit ((List.range 65).flatMap fun number => (if number = 0 then ['0'] else signalName number) ++ ['\n'])
    | text :: _ =>
      let number ← numeral text
      let signal := if 128 < number then number - 128 else number
      if 0 < signal && signal ≤ 64 && number != 128 then emit (signalName signal ++ ['\n'])
      else fail (bytesOf "invalid signal number or exit status: " ++ text)
  | ['-', 's'] :: rest =>
    match rest with
    | [] => fail (bytesOf "No arg for -s option")
    | name :: targets =>
      match signalNumber? name with
      | some signal => sendAll signal (if targets.head? == some ['-', '-'] then targets.drop 1 else targets)
      | none => fail (bytesOf "invalid signal number or name: " ++ name)
  | ['-', '-'] :: targets => sendAll 15 targets
  | ('-' :: letter :: name) :: targets =>
    match signalNumber? (letter :: name) with
    | some signal => sendAll signal targets
    | none => fail (bytesOf "Illegal option -" ++ [letter])
  | targets => sendAll 15 targets

def leaveLoops (leave : Nat → Leave) (arguments : List Bytes) : Run Nat := do
  let count ← (arguments.head?.map numeral).getD (pure 1)
  if count = 0 then fail (bytesOf "Illegal number: 0")
  else
    let loops := (← get).loops
    setStatus 0
    if loops = 0 then return 0 else throw (leave (min count loops))

/-- Leaves a function or the shell with a status, or with the last one. -/
def leaveWith (leave : Leave) (arguments : List Bytes) : Run Nat := do
  if let some text := arguments.head? then setStatus (← numeral text)
  throw leave

end Builtin

open Builtin in
def plainBuiltins : List (String × (List Bytes → Run Nat)) :=
  [(":", fun _ => return 0), ("true", fun _ => return 0), ("false", fun _ => return 1), ("echo", echo),
   ("printf", printf), ("test", test), ("[", bracket), ("read", read), ("shift", shift), ("set", setOptions),
   ("unset", unset), ("local", localVariables), ("cd", cd), ("chdir", cd), ("pwd", fun _ => pwd), ("trap", trap),
   ("kill", kill), ("export", declare "export" (·.exported) fun held => { held with exported := true }),
   ("readonly", declare "readonly" (·.readOnly) fun held => { held with readOnly := true }),
   ("break", leaveLoops .breaking), ("continue", leaveLoops .continuing), ("return", leaveWith .returning),
   ("exit", leaveWith .exiting), ("umask", fun _ => emit (bytesOf "0022\n")), ("hash", fun _ => return 0)]

def runningBuiltins : List String := ["eval", "exec", ".", "command", "wait", "type"]

def isBuiltin (name : Bytes) : Bool :=
  plainBuiltins.any (fun (known, _) => known.toList == name) || runningBuiltins.any fun known => known.toList == name

def isSpecialBuiltin (name : Bytes) : Bool := specialBuiltins.any fun known => known.toList == name

end Verbatim.Tool.Shell
