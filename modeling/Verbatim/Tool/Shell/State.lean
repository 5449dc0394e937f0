import Verbatim.Tool.Shell.Reader

/-!
The state of a running shell: parameters and variables, functions and traps, and the streams that its
descriptors refer to. Streams are shared by all shells of a script, all else belongs to one of them.
-/

namespace Verbatim.Tool.Shell

structure Variable where
  value : Option Bytes := none
  exported : Bool := false
  readOnly : Bool := false

inductive Channel where
  | source (index : Nat)
  | sink (index : Nat)
  | file (name : Bytes)
  | nowhere

abbrev Descriptors := List (Nat × Channel)

/-- A command that runs beside the script, with what it started from. It is carried out when it is waited
for, or behind the script. -/
structure Job where
  number : Nat
  command : Command
  bindings : List (Bytes × Variable)
  parameters : List Bytes
  descriptors : Descriptors
  started : Nat

/-- What is shared: texts to be read, texts that have been written with the last part first, files, and
the time so far in milliseconds. -/
structure Streams where
  sources : Array Bytes := #[]
  sinks : Array (List Bytes) := #[]
  files : Files := {}
  duration : Nat := 1

structure State where
  name : Bytes
  number : Nat := 1000
  ancestors : List Nat := []
  parameters : List Bytes := []
  bindings : List (Bytes × Variable) := []
  functions : List (Bytes × Command) := []
  /-- Variables of the functions that are running, as they were outside. -/
  hidden : List (List (Bytes × Option Variable)) := []
  options : List Char := []
  traps : List (Nat × Bytes) := []
  /-- Signals that have arrived and have a trap. -/
  arrived : List Nat := []
  descriptors : Descriptors := []
  streams : Streams := {}
  documents : List (Nat × Word) := []
  documentCount : Nat := 0
  jobs : List Job := []
  finished : List (Nat × Nat) := []
  lastJob : Option Nat := none
  nextJob : Nat := 2000
  status : Nat := 0
  /-- The status of the last substitution in the command that is being expanded. -/
  substituted : Nat := 0
  line : Nat := 1
  reached : Nat := 1
  builtin : Option Bytes := none
  loops : Nat := 0
  here : Bytes := ['/']
  isSubshell : Bool := false

inductive Leave where
  | breaking (levels : Nat)
  | continuing (levels : Nat)
  | returning
  /-- After a complaint, which ends the shell unless an ordinary builtin made it. -/
  | failing
  | exiting
  /-- A signal ends a shell, which may be one that this one runs in. -/
  | killed (process signal : Nat)
  | endless

abbrev Run := ExceptT Leave (StateM State)

/-- Adds to the text behind a descriptor. Answers whether it could be written. -/
def Streams.add (streams : Streams) (channel : Option Channel) (text : Bytes) : Option Streams :=
  match channel with
  | some (.sink index) => some { streams with sinks := streams.sinks.modify index (text :: ·) }
  | some (.file name) => some { streams with files := streams.files.append name text }
  | some .nowhere => some streams
  | some (.source _) | none => none

/-- Writes to what a descriptor refers to. Answers whether that is possible. -/
def writeTo (channel : Option Channel) (text : Bytes) : Run Bool :=
  modifyGet fun state =>
    match state.streams.add channel text with
    | some streams => (true, { state with streams := streams })
    | none => (text.isEmpty, state)

def write (descriptor : Nat) (text : Bytes) : Run Bool := do writeTo ((← get).descriptors.lookup descriptor) text

/-- A line about what went wrong, with the names of the script and of the builtin. -/
def complain (message : Bytes) : Run Unit := do
  let state ← get
  let place := state.name ++ bytesOf ": " ++ (Numeral.decimal state.line).toList ++ bytesOf ": "
  let builtin := (state.builtin.map (· ++ bytesOf ": ")).getD []
  discard (write 2 (place ++ builtin ++ message ++ ['\n']))

def setStatus (status : Nat) : Run Unit := modify fun state => { state with status := status }

def fail (message : Bytes) : Run α := do
  complain message
  setStatus 2
  throw .failing

def State.has (state : State) (option : Char) : Bool := state.options.contains option

def readable : Run Bytes := do
  let state ← get
  match state.descriptors.lookup 0 with
  | some (.source index) => return state.streams.sources.getD index []
  | _ => return []

def leaveUnread (rest : Bytes) : Run Unit :=
  modify fun state =>
    match state.descriptors.lookup 0 with
    | some (.source index) =>
      { state with streams := { state.streams with sources := state.streams.sources.setIfInBounds index rest } }
    | _ => state

def addSource (text : Bytes) : Run Channel :=
  modifyGet fun state =>
    (.source state.streams.sources.size,
      { state with streams := { state.streams with sources := state.streams.sources.push text } })

def addSink : Run Nat :=
  modifyGet fun state =>
    (state.streams.sinks.size, { state with streams := { state.streams with sinks := state.streams.sinks.push [] } })

def Streams.sent (streams : Streams) (index : Nat) : Bytes := (streams.sinks.getD index []).reverse.flatten

def Descriptors.bind (descriptors : Descriptors) (descriptor : Nat) (channel : Option Channel) : Descriptors :=
  let others := descriptors.filter (·.1 != descriptor)
  match channel with
  | some channel => (descriptor, channel) :: others
  | none => others

/-- Milliseconds pass. -/
def pass (time : Nat) : Run Unit :=
  modify fun state => { state with streams := { state.streams with duration := state.streams.duration + time } }

def State.held? (state : State) (name : Bytes) : Option Bytes := (state.bindings.lookup name).bind (·.value)

def State.put (state : State) (name : Bytes) (held : Option Variable) : State :=
  let others := state.bindings.filter (·.1 != name)
  { state with bindings := match held with
      | some held => (name, held) :: others
      | none => others }

def assign (name value : Bytes) : Run Unit := do
  let state ← get
  let old := (state.bindings.lookup name).getD {}
  if old.readOnly then fail (name ++ bytesOf ": is read only")
  else set (state.put name (some { old with value := some value }))

/-- The files, as they are seen from the current directory. -/
def State.files (state : State) : Files := { state.streams.files with here := state.here }

def State.separators (state : State) : Bytes := (state.held? (bytesOf "IFS")).getD (bytesOf " \t\n")

/-- The value of a parameter other than the list of all. -/
def State.value? (state : State) (name : Bytes) : Option Bytes :=
  let number (value : Nat) : Option Bytes := some (Numeral.decimal value).toList
  match name with
  | ['#'] => number state.parameters.length
  | ['?'] => number state.status
  | ['$'] => number state.number
  | ['!'] => state.lastJob.map fun job => (Numeral.decimal job).toList
  | ['-'] => some state.options
  | ['0'] => some state.name
  | name =>
    if name.all Char.isDigit then state.parameters[(Numeral.digits? 10 0 name).getD 0 - 1]?
    else state.held? name

def State.environment (state : State) : List (Bytes × Bytes) :=
  state.bindings.filterMap fun (name, held) => if held.exported then held.value.map (name, ·) else none

end Verbatim.Tool.Shell
