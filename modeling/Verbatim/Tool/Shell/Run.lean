import Verbatim.Tool.Shell.Builtin
import Verbatim.Tool.Utility

/-!
Running scripts. Commands run one after another on the streams of the shell; each stage of a pipeline runs
on all that the one before it wrote. Every step takes fuel, and a script that uses it up counts as one
that never ends.
-/

namespace Verbatim.Tool.Shell

/-- Runs to the end or to where it is left. -/
def attempt (body : Run α) : Run (Except Leave α) := ExceptT.mk do return .ok (← body.run)

/-- Goes on as a body ended. -/
def conclude (result : Except Leave α) : Run α :=
  match result with
  | .ok value => return value
  | .error leave => throw leave

/-- Runs a body and puts something back, however it ends. -/
def afterwards (body : Run α) (restore : State → State) : Run α := do
  let result ← attempt body
  modify restore
  conclude result

def keepingDescriptors (body : Run α) : Run α := do
  let saved := (← get).descriptors
  afterwards body fun state => { state with descriptors := saved }

def signalDescriptions : List (Nat × String) :=
  [(1, "Hangup"), (3, "Quit"), (4, "Illegal instruction"), (5, "Trace/breakpoint trap"), (6, "Aborted"),
   (7, "Bus error"), (8, "Floating point exception"), (9, "Killed"), (10, "User defined signal 1"),
   (11, "Segmentation fault"), (12, "User defined signal 2"), (14, "Alarm clock"), (15, "Terminated"),
   (16, "Stack fault"), (24, "CPU time limit exceeded"), (25, "File size limit exceeded"),
   (26, "Virtual timer expired"), (27, "Profiling timer expired"), (29, "I/O possible"), (30, "Power failure"),
   (31, "Bad system call")]

/-- Takes over how a program ended as the status. -/
def conclusion (status : ExitStatus) : Run Unit := do
  match status with
  | .code value => setStatus value
  | .signal number =>
    if let some text := signalDescriptions.lookup number then discard (write 2 (bytesOf text ++ ['\n']))
    setStatus (128 + number)

/-- A failure that nothing looks at ends the shell, if that is asked for. -/
def checkFailure (tested : Bool) : Run Unit := do
  let state ← get
  if !tested && state.has 'e' && state.status != 0 then throw .exiting

/-- What a shell hands down to a part of it that runs on its own. -/
def State.forked (state : State) : State :=
  { state with
    traps := state.traps.filter (·.2.isEmpty)
    arrived := []
    jobs := []
    reached := 1
    isSubshell := true }

def State.device? (state : State) (name : Bytes) : Option (Option Channel) :=
  match String.ofList name with
  | "/dev/stdin" | "/dev/fd/0" => some (state.descriptors.lookup 0)
  | "/dev/stdout" | "/dev/fd/1" => some (state.descriptors.lookup 1)
  | "/dev/stderr" | "/dev/fd/2" => some (state.descriptors.lookup 2)
  | "/dev/null" => some (some .nowhere)
  | _ => none

def bindDescriptor (descriptor : Nat) (channel : Option Channel) : Run Unit :=
  modify fun state => { state with descriptors := state.descriptors.bind descriptor channel }

def openFile (descriptor : Nat) (opening : Opening) (name : Bytes) : Run Bool := do
  let state ← get
  let files := state.files
  let refused (text : String) (reason : String) : Run Bool := do
    complain (bytesOf text ++ name ++ bytesOf reason)
    return false
  let written : Run Bool := do
    let path := files.locate name
    let changed := if opening = .append then state.streams.files.append path [] else state.streams.files.clear path
    modify fun state => { state with streams := { state.streams with files := changed } }
    bindDescriptor descriptor (some (.file path))
    return true
  match state.device? name, opening, files.look name with
  | some channel, _, _ =>
    bindDescriptor descriptor channel
    return true
  | none, .read, .file content =>
    bindDescriptor descriptor (some (← addSource content))
    return true
  | none, .read, .directory | none, .read, .host _ | none, .read, .endless =>
    bindDescriptor descriptor (some .nowhere)
    return true
  | none, .read, .tooLong => refused "cannot open " ": File name too long"
  | none, .read, _ => refused "cannot open " ": No such file"
  | none, _, .directory => refused "cannot create " ": Is a directory"
  | none, _, .tooLong => refused "cannot create " ": File name too long"
  | none, _, .host _ => refused "cannot create " ": Permission denied"
  | none, _, .endless =>
    bindDescriptor descriptor (some .nowhere)
    return true
  | none, _, .file _ => written
  | none, _, _ =>
    if !name.isEmpty && files.look (Files.parent name) = .directory then written
    else refused "cannot create " ": Directory nonexistent"

def notOpened (name : Bytes) (found : Found) : Run α :=
  let reason := if found = .tooLong then ": File name too long" else ": No such file"
  fail (bytesOf "cannot open " ++ name ++ bytesOf reason)

def copyDescriptor (descriptor : Nat) (source : Bytes) : Run Bool := do
  if source == ['-'] then
    bindDescriptor descriptor none
    return true
  else
    match source.length, Numeral.magnitude? 10 source with
    | 1, some number =>
      match (← get).descriptors.lookup number with
      | some channel =>
        bindDescriptor descriptor (some channel)
        return true
      | none =>
        complain (source ++ bytesOf ": Bad file descriptor")
        return false
    | _, _ =>
      modify fun state => { state with line := state.reached }
      fail (bytesOf "Syntax error: Bad fd number")

/-- Gives variables values for the time of a command. Answers how to put them back. -/
def assignForNow (values : List (Bytes × Bytes)) : Run (State → State) := do
  let before := (← get).bindings
  for (name, value) in values do
    assign name value
    modify fun state => state.put name (((state.bindings.lookup name).getD {}) |> fun held =>
      some { held with exported := true })
  return fun state => values.foldl (fun state (name, _) => state.put name (before.lookup name)) state

def State.leaveFunction (state : State) : State :=
  match state.hidden with
  | inner :: outer => { inner.foldl (fun state (name, held) => state.put name held) state with hidden := outer }
  | [] => state

/-- Whether programs are looked for in the usual directories. -/
def State.findsPrograms (state : State) : Bool :=
  let directories := ((state.held? (bytesOf "PATH")).getD []).splitOn ':'
  directories.contains (bytesOf "/usr/bin") || directories.contains (bytesOf "/bin")

def State.lookUp (state : State) (name : Bytes) : Lookup :=
  if name.contains '/' || state.findsPrograms then Tool.lookUp state.files name else .missing

def notRun (name : Bytes) (found : Lookup) : Run Unit := do
  match found with
  | .denied =>
    complain (name ++ bytesOf ": Permission denied")
    setStatus 126
  | .tooLong =>
    complain (name ++ bytesOf ": File name too long")
    setStatus 127
  | _ =>
    complain (name ++ bytesOf (if name.isEmpty then ": Permission denied" else ": not found"))
    setStatus 127

def describe (brief : Bool) (name : Bytes) : Run Nat := do
  let state ← get
  let say (text : String) : Run Nat := emit (if brief then name ++ ['\n'] else name ++ bytesOf (text ++ "\n"))
  if reserved.any fun word => word.toList == name then say " is a shell keyword"
  else if isSpecialBuiltin name then say " is a special shell builtin"
  else if (state.functions.lookup name).isSome then say " is a shell function"
  else if isBuiltin name then say " is a shell builtin"
  else
    match state.lookUp name with
    | .utility _ | .shell =>
      let path := if name.contains '/' then name else bytesOf "/usr/bin/" ++ name
      emit (if brief then path ++ ['\n'] else name ++ bytesOf " is " ++ path ++ ['\n'])
    | _ =>
      unless brief do discard (emit (name ++ bytesOf ": not found\n"))
      return 127

structure Start where
  fromArgument : Bool := false
  fromInput : Bool := false
  operands : List Bytes := []

def startOptions : List Bytes → Run Start
  | [] => return {}
  | argument :: rest => do
    let turned (isOn : Bool) (letters : List Char) : Run Start := do
      let start : Start ←
        if ← Builtin.turnLetters isOn letters ['c', 'l'] then
          match rest with
          | [] => pure {}
          | word :: rest =>
            Builtin.turnWord isOn word
            startOptions rest
        else startOptions rest
      return { start with
        fromArgument := start.fromArgument || letters.contains 'c'
        fromInput := start.fromInput || letters.contains 's' }
    match argument with
    | ['-'] | ['-', '-'] => return { operands := rest }
    | '-' :: letters => turned true letters
    | '+' :: letters => turned false letters
    | _ => return { operands := argument :: rest }

def initialVariables (environment : List (Bytes × Bytes)) (here : Bytes) : List (Bytes × Variable) :=
  let given := environment.map fun (name, value) => (name, { value := some value, exported := true : Variable })
  let own : List (String × Bytes) :=
    [("IFS", bytesOf " \t\n"), ("OPTIND", ['1']),
     ("PATH", bytesOf "/usr/local/sbin:/usr/local/bin:/usr/sbin:/usr/bin:/sbin:/bin"), ("PS1", ['$', ' ']),
     ("PS2", ['>', ' ']), ("PS4", ['+', ' ']), ("PWD", here)]
  let missing := own.filter fun (name, _) => name == "IFS" || (environment.lookup (bytesOf name)).isNone
  given.filter (·.1 != bytesOf "IFS") ++
    missing.map fun (name, value) => (bytesOf name, { value := some value, exported := name == "PATH" })

inductive Turn where
  | done
  | again
  | stop

def takeTurn (body : Run Unit) : Run Turn := do
  match ← attempt body with
  | .ok _ => return .done
  | .error (.breaking levels) => if 1 < levels then throw (.breaking (levels - 1)) else return .stop
  | .error (.continuing levels) => if 1 < levels then throw (.continuing (levels - 1)) else return .again
  | .error leave => throw leave

def inLoop (body : Run Unit) : Run Unit := do
  modify fun state => { state with loops := state.loops + 1 }
  afterwards body fun state => { state with loops := state.loops - 1 }

def readingFuel (text : Bytes) : Nat := 40 * text.length + 200

mutual

/-- Expands parts of a word. `splits` tells whether plain text can separate fields. -/
def expandParts : (fuel : Nat) → (splits : Bool) → Word → Run (List Piece)
  | 0, _, _ => throw .endless
  | _ + 1, _, [] => return []
  | fuel + 1, splits, part :: rest => do
    let first ← expandPart fuel splits part
    return first ++ (← expandParts fuel splits rest)

def expandPart : (fuel : Nat) → (splits : Bool) → Part → Run (List Piece)
  | 0, _, _ => throw .endless
  | fuel + 1, splits, part => do
    match part with
    | .literal text => return text.map fun c => .byte c false splits
    | .quoted text => return piecesOf true text
    | .parameter quoted name use => expandParameter fuel quoted name use
    | .substitution quoted commands => return piecesOf quoted (← captured fuel commands)
    | .arithmetic quoted expression =>
      let text ← expandText fuel expression
      let state ← get
      match Arithmetic.evaluate (fun name => (state.value? name).getD []) text with
      | .ok (value, assigned) =>
        assigned.reverse.forM fun (name, value) => assign name value
        return piecesOf quoted value
      | .error (.expression message) =>
        fail (bytesOf "arithmetic expression: " ++ message ++ bytesOf ": \x22" ++ text ++ bytesOf "\x22")
      | .error (.number text) => fail (bytesOf "Illegal number: " ++ text)

def expandParameter : (fuel : Nat) → (quoted : Bool) → (name : Bytes) → Use → Run (List Piece)
  | 0, _, _, _ => throw .endless
  | fuel + 1, quoted, name, use => do
    let state ← get
    let isList := name == ['@'] || name == ['*']
    let value? : Option Bytes :=
      if isList then some (spaced state.parameters) else state.value? name
    let known : Run Unit := do
      if value?.isNone && state.has 'u' then fail (name ++ bytesOf ": parameter not set")
    let shown : List Piece :=
      if !isList then piecesOf quoted (value?.getD [])
      else if quoted && name == ['*'] then
        piecesOf true (List.flatten (state.parameters.intersperse (state.separators.take 1)))
      else List.flatten ((state.parameters.map (piecesOf quoted)).intersperse [.cut])
    match use with
    | .value =>
      known
      return shown
    | .length =>
      known
      let count := if isList then state.parameters.length else (value?.getD []).length
      return piecesOf quoted (Numeral.decimal count).toList
    | .trim atEnd longest pattern =>
      known
      let marked := markedOf (← expandParts fuel false pattern)
      return piecesOf quoted (trimmedBy atEnd longest marked (value?.getD []))
    | .fallback kind orEmpty word =>
      let isSet := value?.any fun value => !(orEmpty && value.isEmpty)
      let inWord : Run (List Piece) := do
        let pieces ← expandParts fuel (!quoted) word
        return if quoted then .mark :: pieces else pieces
      match kind with
      | .useWord => if isSet then return shown else inWord
      | .alternative => if isSet then inWord else return if quoted then [.mark] else []
      | .assignWord =>
        if isSet then return shown
        else
          let text ← expandText fuel word
          if isName name then assign name text else fail (bytesOf "Bad substitution")
          return piecesOf quoted text
      | .complain =>
        if isSet then return shown
        else
          let text ← expandText fuel word
          let usual := if orEmpty then "parameter not set or null" else "parameter not set"
          fail (name ++ bytesOf ": " ++ if word.isEmpty then bytesOf usual else text)
    | .unknown => fail (bytesOf "Bad substitution")

def expandText : (fuel : Nat) → Word → Run Bytes
  | 0, _ => throw .endless
  | fuel + 1, word => return textOf (← expandParts fuel false word)

/-- Expands words to fields. Behind a command that declares variables, assignments stay whole. -/
def expandWords : (fuel : Nat) → (declares : Bool) → List Word → Run (List Bytes)
  | 0, _, _ => throw .endless
  | _ + 1, _, [] => return []
  | fuel + 1, declares, word :: rest => do
    let first ←
      if declares && (assignment? word).isSome then pure [← expandText fuel word]
      else
        let pieces ← expandParts fuel false word
        pure ((fieldsOf (← get).separators pieces).map fun field => field.map (·.1))
    return first ++ (← expandWords fuel declares rest)

/-- What commands print, without line ends behind it. Their status is kept apart. -/
def captured : (fuel : Nat) → List Command → Run Bytes
  | 0, _ => throw .endless
  | fuel + 1, commands => do
    let before := (← get).status
    let sink ← addSink
    keepingDescriptors do
      bindDescriptor 1 (some (.sink sink))
      apart fuel (commands.forM (runCommand fuel false))
    modify fun state => { state with substituted := state.status, status := before }
    let text := (← get).streams.sent sink
    return ((text.filter (·.toNat != 0)).reverse.dropWhile (· == '\n')).reverse

/-- Runs a body as a shell of its own. What it does to the streams stays, and its status. -/
def apart : (fuel : Nat) → (body : Run Unit) → Run Unit
  | 0, _ => throw .endless
  | fuel + 1, body => do
    let outer ← get
    set outer.forked
    let result ← attempt body
    let ended ← attempt (finishShell fuel result)
    let inner ← get
    set { outer with streams := inner.streams }
    match ← conclude ended with
    | .code value => setStatus value
    | .signal number => throw (.killed outer.number number)

/-- Ends a shell: runs what is to be done at its end, and then the jobs that are left. -/
def finishShell : (fuel : Nat) → Except Leave Unit → Run ExitStatus
  | 0, _ => throw .endless
  | fuel + 1, result => do
    match result with
    | .error .endless => throw .endless
    | .error (.killed process signal) =>
      if process = (← get).number && !(← get).isSubshell then return .signal signal
      else throw (.killed process signal)
    | _ =>
      let state ← get
      let last ←
        match state.traps.lookup 0 with
        | some action =>
          set { state with traps := state.traps.filter (·.1 != 0), loops := 0 }
          let ended ← attempt (runText fuel action)
          match ended with
          | .ok _ => setStatus state.status
          | .error _ => pure ()
          pure (if let .error (.killed process signal) := ended then some (process, signal) else none)
        | none => pure none
      match last with
      | some (process, signal) => finishShell fuel (.error (.killed process signal))
      | none =>
        let status := (← get).status
        let duration := (← get).streams.duration
        for job in (← get).jobs do runJob fuel job
        modify fun state => { state with streams := { state.streams with duration := duration } }
        return .code (status % 256)

/-- Carries out a job, from where it was started. -/
def runJob : (fuel : Nat) → Job → Run Unit
  | 0, _ => throw .endless
  | fuel + 1, job => do
    let outer ← get
    set { outer with
      bindings := job.bindings
      parameters := job.parameters
      descriptors := job.descriptors
      streams := { outer.streams with duration := job.started } }
    apart fuel (runCommand fuel false job.command)
    let inner ← get
    set { outer with
      streams := { inner.streams with duration := max outer.streams.duration inner.streams.duration }
      jobs := outer.jobs.filter (·.number != job.number)
      finished := (job.number, inner.status) :: outer.finished }

def runTraps : (fuel : Nat) → Run Unit
  | 0 => throw .endless
  | fuel + 1 => do
    let state ← get
    match state.arrived with
    | [] => return
    | signal :: rest =>
      set { state with arrived := rest }
      runText fuel ((state.traps.lookup signal).getD [])
      setStatus state.status
      runTraps fuel

def runText : (fuel : Nat) → Bytes → Run Unit
  | 0, _ => throw .endless
  | fuel + 1, text => do
    let outer := (← get).reached
    runLines fuel (readingFuel text) { rest := text, count := (← get).documentCount }
    modify fun state => { state with reached := outer }

/-- Runs the rest of a script line by line. What cannot be read is reported when it is reached. -/
def runLines : (fuel reading : Nat) → Reading → Run Unit
  | 0, _, _ => throw .endless
  | fuel + 1, allowance, reading => do
    match (nextLine allowance).run reading with
    | .error complaint =>
      modify fun state => { state with line := complaint.line }
      fail complaint.message
    | .ok (none, _) => return
    | .ok (some line, reading) =>
      modify fun state => { state with
        documents := reading.documents ++ state.documents
        documentCount := reading.count
        reached := reading.line }
      line.forM (runCommand fuel false)
      runLines fuel allowance { reading with documents := [] }

/-- Runs a command. `tested` tells that something looks at its status. -/
def runCommand : (fuel : Nat) → (tested : Bool) → Command → Run Unit
  | 0, _, _ => throw .endless
  | fuel + 1, tested, command => do
    if (← get).has 'n' then return
    match command with
    | .simple line assignments words targets =>
      runSimple fuel tested line assignments words targets
      checkFailure tested
    | .pipeline stages =>
      let start := (← get).streams.duration
      runStages fuel start start (← get).status none stages
      checkFailure tested
    | .negated command =>
      runCommand fuel true command
      modify fun state => { state with status := if state.status = 0 then 1 else 0 }
    | .both first second =>
      runCommand fuel true first
      if (← get).status = 0 then runCommand fuel tested second
    | .either first second =>
      runCommand fuel true first
      if (← get).status != 0 then runCommand fuel tested second
    | .sequence first second =>
      runCommand fuel tested first
      runCommand fuel tested second
    | .background command =>
      modify fun state => { state with
        jobs := state.jobs ++ [⟨state.nextJob, command, state.bindings, state.parameters,
          state.descriptors.bind 0 (some .nowhere), state.streams.duration⟩]
        lastJob := some state.nextJob
        nextJob := state.nextJob + 1
        status := 0 }
    | .redirected line command targets =>
      modify fun state => { state with line := line }
      keepingDescriptors do
        if ← redirect fuel targets then runCommand fuel tested command else setStatus 2
    | .subshell line command targets =>
      modify fun state => { state with line := line }
      apart fuel do
        if ← redirect fuel targets then runCommand fuel tested command else setStatus 2
      checkFailure tested
    | .branch condition yes no =>
      runCommand fuel true condition
      if (← get).status = 0 then runCommand fuel tested yes
      else
        match no with
        | some no => runCommand fuel tested no
        | none => setStatus 0
    | .loop inverted condition body =>
      inLoop (runLoop fuel tested inverted condition body 0)
    | .each line name words body =>
      modify fun state => { state with line := line }
      let values ← match words with
        | some words => expandWords fuel false words
        | none => pure (← get).parameters
      if values.isEmpty then setStatus 0
      inLoop (runEach fuel tested name body values)
    | .choose line word arms =>
      modify fun state => { state with line := line }
      runArms fuel tested (← expandText fuel word) arms
    | .define name body =>
      modify fun state => { state with
        functions := (name, body) :: state.functions.filter (·.1 != name)
        status := 0 }
    runTraps fuel

/-- Runs stages of a pipeline. `input` is what the stage before wrote; all stages start at one time and with
one status, and the pipeline takes as long as the longest of them. -/
def runStages : (fuel start longest status : Nat) → (input : Option Bytes) → List Command → Run Unit
  | 0, _, _, _, _, _ => throw .endless
  | _ + 1, _, _, _, _, [] => return
  | fuel + 1, start, longest, status, input, stage :: rest => do
    setStatus status
    let sink ← addSink
    keepingDescriptors do
      if let some text := input then bindDescriptor 0 (some (← addSource text))
      unless rest.isEmpty do bindDescriptor 1 (some (.sink sink))
      apart fuel (runCommand fuel false stage)
    let streams := (← get).streams
    let longest := max longest streams.duration
    let duration := if rest.isEmpty then longest else start
    modify fun state => { state with streams := { streams with duration := duration } }
    runStages fuel start longest status (some (streams.sent sink)) rest

def runLoop : (fuel : Nat) → (tested inverted : Bool) → (condition body : Command) → (status : Nat) → Run Unit
  | 0, _, _, _, _, _ => throw .endless
  | fuel + 1, tested, inverted, condition, body, status => do
    match ← takeTurn (runCommand fuel true condition) with
    | .stop => return
    | .again => runLoop fuel tested inverted condition body 0
    | .done =>
      if ((← get).status = 0) = inverted then setStatus status
      else
        match ← takeTurn (runCommand fuel tested body) with
        | .stop => return
        | _ => runLoop fuel tested inverted condition body (← get).status

def runEach : (fuel : Nat) → (tested : Bool) → (name : Bytes) → (body : Command) → List Bytes → Run Unit
  | 0, _, _, _, _ => throw .endless
  | _ + 1, _, _, _, [] => return
  | fuel + 1, tested, name, body, value :: rest => do
    assign name value
    match ← takeTurn (runCommand fuel tested body) with
    | .stop => return
    | _ => runEach fuel tested name body rest

/-- Runs the first arm with a pattern for the text. -/
def runArms : (fuel : Nat) → (tested : Bool) → (text : Bytes) → List (List Word × Option Command) → Run Unit
  | 0, _, _, _ => throw .endless
  | _ + 1, _, _, [] => setStatus 0
  | fuel + 1, tested, text, (patterns, body) :: rest => do
    if ← anyCovers fuel text patterns then
      match body with
      | some body => runCommand fuel tested body
      | none => setStatus 0
    else runArms fuel tested text rest

def anyCovers : (fuel : Nat) → (text : Bytes) → List Word → Run Bool
  | 0, _, _ => throw .endless
  | _ + 1, _, [] => return false
  | fuel + 1, text, pattern :: rest => do
    if covers (markedOf (← expandParts fuel false pattern)) text then return true
    else anyCovers fuel text rest

/-- Carries out redirections in order. Answers whether all of them are possible. -/
def redirect : (fuel : Nat) → List Redirection → Run Bool
  | 0, _ => throw .endless
  | _ + 1, [] => return true
  | fuel + 1, target :: rest => do
    let isDone ←
      match target with
      | .file descriptor opening name => openFile descriptor opening (← expandText fuel name)
      | .copy descriptor source => copyDescriptor descriptor (← expandText fuel source)
      | .document descriptor number =>
        let text ← expandText fuel (((← get).documents.lookup number).getD [])
        bindDescriptor descriptor (some (← addSource text))
        pure true
    if isDone then redirect fuel rest else return false

/-- The values of assignments, each of which can use those before it. -/
def expandAssignments : (fuel : Nat) → List (Bytes × Word) → Run (List (Bytes × Bytes))
  | 0, _ => throw .endless
  | _ + 1, [] => return []
  | fuel + 1, (name, word) :: rest => do
    let value ← expandText fuel word
    return (name, value) :: (← expandAssignments fuel rest)

def assignAll : (fuel : Nat) → List (Bytes × Word) → Run (List (Bytes × Bytes))
  | 0, _ => throw .endless
  | _ + 1, [] => return []
  | fuel + 1, (name, word) :: rest => do
    let value ← expandText fuel word
    assign name value
    return (name, value) :: (← assignAll fuel rest)

def runSimple : (fuel : Nat) → (tested : Bool) → (line : Nat) → List (Bytes × Word) → List Word →
    List Redirection → Run Unit
  | 0, _, _, _, _, _ => throw .endless
  | fuel + 1, tested, line, assignments, words, targets => do
    modify fun state => { state with line := line, substituted := 0 }
    let name ← expandWords fuel false (words.take 1)
    let declares := ["export", "readonly", "local"].any fun word => name == [word.toList]
    let arguments := name ++ (← expandWords fuel declares (words.drop 1))
    let errors := (← get).descriptors.lookup 2
    let trace (values : List (Bytes × Bytes)) : Run Unit := do
      if (← get).has 'x' then
        let shown := values.map (fun (name, value) => name ++ '=' :: value) ++ arguments
        let mark := ((← get).held? (bytesOf "PS4")).getD []
        discard (writeTo errors (mark ++ spaced shown ++ ['\n']))
    match arguments with
    | [] =>
      keepingDescriptors do
        if ← redirect fuel targets then
          let values ← assignAll fuel assignments
          unless values.isEmpty do trace values
          modify fun state => { state with status := state.substituted }
        else setStatus 2
    | name :: rest =>
      let isSpecial := isSpecialBuiltin name
      let body : Run Unit := do
        if ← redirect fuel targets then
          let values ← expandAssignments fuel assignments
          trace values
          runNamed fuel tested values name rest
        else
          setStatus 2
          if isSpecial then throw .failing
      if name == bytesOf "exec" then body else keepingDescriptors body

def runNamed : (fuel : Nat) → (tested : Bool) → (values : List (Bytes × Bytes)) → (name : Bytes) →
    (arguments : List Bytes) → Run Unit
  | 0, _, _, _, _ => throw .endless
  | fuel + 1, tested, values, name, arguments => do
    if isSpecialBuiltin name then
      for (name, value) in values do assign name value
      runBuiltin fuel true name arguments
    else
      match (← get).functions.lookup name with
      | some body =>
        let restore ← assignForNow values
        afterwards (callFunction fuel tested body arguments) restore
      | none =>
        if isBuiltin name then
          let restore ← assignForNow values
          afterwards (runBuiltin fuel false name arguments) restore
        else conclusion (← runProgram fuel values name arguments)

/-- Runs the body of a function with its own parameters and variables. -/
def callFunction : (fuel : Nat) → (tested : Bool) → (body : Command) → (arguments : List Bytes) → Run Unit
  | 0, _, _, _ => throw .endless
  | fuel + 1, tested, body, arguments => do
    let outer ← get
    set { outer with parameters := arguments, loops := 0, hidden := [] :: outer.hidden }
    let result ← attempt (runCommand fuel tested body)
    modify fun state =>
      { state.leaveFunction with parameters := outer.parameters, loops := outer.loops }
    match result with
    | .error .returning => return
    | result => conclude result

/-- Runs a builtin. Complaints of special ones end the shell. -/
def runBuiltin : (fuel : Nat) → (special : Bool) → (name : Bytes) → (arguments : List Bytes) → Run Unit
  | 0, _, _, _ => throw .endless
  | fuel + 1, special, name, arguments => do
    let outer := (← get).builtin
    modify fun state => { state with builtin := some name }
    let body : Run Nat :=
      match plainBuiltins.lookup (String.ofList name), String.ofList name with
      | some run, _ => run arguments
      | none, "eval" => do
        let text := spaced arguments
        if text.all isSpace then return 0
        else
          runText fuel text
          return (← get).status
      | none, "." => sourceFile fuel arguments
      | none, "command" => runPlainly fuel arguments
      | none, "exec" => replaceShell fuel arguments
      | none, "type" => do
        let results ← arguments.mapM (describe false)
        return results.foldl max 0
      | none, _ => waitFor fuel arguments
    let result ← attempt body
    modify fun state => { state with builtin := outer }
    match result with
    | .ok status => setStatus status
    | .error .failing => if special then throw .failing else return
    | .error leave => throw leave

def sourceFile : (fuel : Nat) → (arguments : List Bytes) → Run Nat
  | 0, _ => throw .endless
  | _ + 1, [] => return 0
  | fuel + 1, name :: _ => do
    if !name.contains '/' then fail (name ++ bytesOf ": not found")
    else
      match (← get).files.look name with
      | .file content =>
        setStatus 0
        let result ← attempt (runText fuel content)
        match result with
        | .error .returning => return (← get).status
        | result =>
          conclude result
          return (← get).status
      | found => notOpened name found

/-- Runs a command as if no function had its name, or tells what its name stands for. -/
def runPlainly : (fuel : Nat) → (arguments : List Bytes) → Run Nat
  | 0, _ => throw .endless
  | fuel + 1, arguments => do
    let (given, operands) ← takeOptions ['p', 'v', 'V'] arguments
    match operands with
    | [] => return 0
    | name :: rest =>
      if given.contains 'v' then describe true name
      else if given.contains 'V' then describe false name
      else
        modify fun state => { state with builtin := none }
        if isBuiltin name then runBuiltin fuel false name rest
        else conclusion (← runProgram fuel [] name rest)
        return (← get).status

def replaceShell : (fuel : Nat) → (arguments : List Bytes) → Run Nat
  | 0, _ => throw .endless
  | _ + 1, [] => return 0
  | fuel + 1, name :: arguments => do
    let ended ← runProgram fuel [] name arguments
    match ended with
    | .code value =>
      setStatus value
      modify fun state => { state with traps := [] }
      throw .exiting
    | .signal number => throw (.killed (← get).number number)

/-- Carries out jobs that are waited for. -/
def waitFor : (fuel : Nat) → (arguments : List Bytes) → Run Nat
  | 0, _ => throw .endless
  | fuel + 1, arguments => do
    match arguments with
    | [] =>
      for job in (← get).jobs do runJob fuel job
      return 0
    | text :: rest =>
      let number ← numeral text
      for job in (← get).jobs do
        if job.number = number then runJob fuel job
      let status := ((← get).finished.lookup number).getD 127
      if 128 < status then conclusion (.signal (status - 128))
      if rest.isEmpty then return status else waitFor fuel rest

def runProgram : (fuel : Nat) → (values : List (Bytes × Bytes)) → (name : Bytes) → (arguments : List Bytes) →
    Run ExitStatus
  | 0, _, _, _ => throw .endless
  | fuel + 1, values, name, arguments => do
    let state ← get
    let environment := values ++ state.environment.filter fun (name, _) => (values.lookup name).isNone
    let call : Call := ⟨name, arguments, ← readable, environment, state.files⟩
    let tooLarge : Run ExitStatus := do
      complain (name ++ bytesOf ": Argument list too long")
      return .code 126
    match state.lookUp name with
    | .utility program =>
      if call.isTooLarge then return ← tooLarge
      let done := program call
      for (outlet, text) in done.written do
        discard (write (if outlet = .output then 1 else 2) text)
      leaveUnread done.unread
      match done.duration with
      | some time => pass time
      | none => throw .endless
      return done.status
    | .shell =>
      if call.isTooLarge then return ← tooLarge
      let inner : State := {
        name := name
        number := state.number + 1
        ancestors := state.number :: state.ancestors
        bindings := initialVariables environment state.here
        descriptors := state.descriptors
        streams := state.streams
        here := state.here
        line := 0 }
      set inner
      let ended ← attempt (runShell fuel arguments)
      let streams := (← get).streams
      set { state with streams := streams }
      conclude ended
    | found =>
      notRun name found
      return .code (← get).status

def runShell : (fuel : Nat) → (arguments : List Bytes) → Run ExitStatus
  | 0, _ => throw .endless
  | fuel + 1, arguments => do
    let result ← attempt do
      let start ← startOptions arguments
      match start.fromArgument, start.operands with
      | true, [] => fail (bytesOf "-c requires an argument")
      | true, text :: operands =>
        modify fun state => { state with
          name := operands.headD state.name
          parameters := operands.drop 1
          options := state.options.filter (· != 's')
          line := 1 }
        runText fuel text
      | false, operands =>
        if start.fromInput || operands.isEmpty then
          let text ← readable
          leaveUnread []
          modify fun state => { state with parameters := operands, line := 1 }
          runText fuel text
        else
          let name := operands.headD []
          match (← get).files.look name with
          | .file content =>
            modify fun state => { state with name := name, parameters := operands.drop 1, line := 1 }
            runText fuel content
          | .directory => return
          | found => notOpened name found
    finishShell fuel result

end

def scriptFuel : Nat := 20000

def sh : Program := fun call =>
  let state : State := {
    name := call.name
    bindings := initialVariables call.environment call.files.here
    descriptors := [(0, .source 0), (1, .sink 0), (2, .sink 1)]
    streams := { sources := #[call.input], sinks := #[[], []], files := call.files }
    here := call.files.here
    line := 0 }
  let (ended, last) := (runShell scriptFuel call.arguments).run state
  let written := [(Outlet.output, last.streams.sent 0), (.errors, last.streams.sent 1)]
  match ended with
  | .ok status => { status := status, written := written, duration := some last.streams.duration }
  | .error _ => { status := .code 1, written := written, duration := none }

end Verbatim.Tool.Shell
