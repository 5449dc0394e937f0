import Verbatim.Tool.Shell.Script

/-!
Reading scripts. Words end at blanks and operators outside of quotes; reserved words count only where a
command can start. Complaints carry the line that has been reached.
-/

namespace Verbatim.Tool.Shell

/-- Why a script cannot be read. -/
structure Complaint where
  line : Nat
  message : Bytes

inductive Token where
  | finish
  | newline
  | operator (text : String)
  | redirect (descriptor : Option Nat) (operator : String)
  | word (parts : Word)

/-- A document that is announced on the line being read. -/
structure Announced where
  number : Nat
  delimiter : Bytes
  quoted : Bool
  indented : Bool

structure Reading where
  rest : Bytes
  line : Nat := 1
  ahead : Option Token := none
  announced : List Announced := []
  documents : List (Nat × Word) := []
  count : Nat := 0

abbrev Parse := StateT Reading (Except Complaint)

def refuse (message : Bytes) : Parse α := do throw ⟨(← get).line, bytesOf "Syntax error: " ++ message⟩

def advance : Parse Unit :=
  modify fun state =>
    match state.rest with
    | [] => state
    | c :: rest => { state with rest := rest, line := if c == '\n' then state.line + 1 else state.line }

def advanceBy (count : Nat) : Parse Unit := (List.range count).forM fun _ => advance

/-- The text of a word that is written without quotes and expansions. -/
def plainText? : Word → Option Bytes
  | [.literal text] => some text
  | _ => none

def Token.keyword? : Token → Option String
  | .word parts => (plainText? parts).bind fun text => reserved.find? fun word => word.toList == text
  | _ => none

def Token.isOperator (token : Token) (text : String) : Bool :=
  match token with
  | .operator found => found == text
  | _ => false

def Token.isNewline : Token → Bool
  | .newline => true
  | _ => false

def Token.shown (token : Token) : String :=
  match token with
  | .finish => "end of file"
  | .newline => "newline"
  | .operator text => "\x22" ++ text ++ "\x22"
  | .redirect _ _ => "redirection"
  | .word _ =>
    match token.keyword? with
    | some found => "\x22" ++ found ++ "\x22"
    | none => "word"

def unexpected (token : Token) (wanted : Option String) : Parse α :=
  refuse (bytesOf (token.shown ++ " unexpected" ++
    match wanted with
    | some wanted => " (expecting " ++ wanted ++ ")"
    | none => ""))

/-- A closing parenthesis has to stand here. No word is reserved in its place. -/
def requireClosing (token : Token) : Parse Unit :=
  match token with
  | .word parts => unexpected (.word (.quoted [] :: parts)) (some "\x22)\x22")
  | token => unless token.isOperator ")" do unexpected token (some "\x22)\x22")

/-- The surroundings in which parts of a word are read, which say where they end. -/
inductive Mode where
  | plain
  | double
  | braces (quoted : Bool)
  | arithmetic (depth : Nat)
  | document

/-- Whether bytes stand for themselves, as between double quotes. -/
def Mode.isQuoted : Mode → Bool
  | .plain | .braces false => false
  | .double | .braces true | .arithmetic _ | .document => true

def Mode.unfinished? : Mode → Option String
  | .plain | .document => none
  | .double => some "Unterminated quoted string"
  | .braces _ => some "Missing '\x7d'"
  | .arithmetic _ => some "Missing '))'"

/-- The bytes that a backslash keeps from being special. -/
def Mode.escapes : Mode → List Char
  | .double | .arithmetic _ => "$\x60\x22\\".toList
  | .braces _ => "$\x60\x22\\\x7d".toList
  | .plain | .document => "$\x60\\".toList

def endsWord (c : Char) : Bool := " \t\n;&|<>()".toList.contains c

/-- Whether quotes hold the list of all parameters and nothing else. Where that is empty there is no field. -/
def isWholeList : Word → Bool
  | [.parameter _ ['@'] .value] => true
  | _ => false

def merged : Word → Word
  | [] => []
  | part :: rest =>
    match part, merged rest with
    | .literal text, .literal more :: rest => .literal (text ++ more) :: rest
    | .quoted text, .quoted more :: rest => .quoted (text ++ more) :: rest
    | part, rest => part :: rest

def assignment? (word : Word) : Option (Bytes × Word) :=
  match word with
  | .literal text :: rest =>
    let name := text.takeWhile (· != '=')
    if isName name && name.length < text.length then
      let value := text.drop (name.length + 1)
      some (name, if value.isEmpty then rest else .literal value :: rest)
    else none
  | _ => none

/-- The script between backquotes: the text up to the next one that is not behind a backslash. -/
def backquoted (quoted : Bool) : (taken : Bytes) → Bytes → Option (Bytes × Bytes)
  | _, [] => none
  | taken, '\\' :: c :: rest =>
    if c == '\\' || c == '$' || c == '\x60' || quoted && c == '\x22' then backquoted quoted (c :: taken) rest
    else backquoted quoted (c :: '\\' :: taken) rest
  | taken, c :: rest => if c == '\x60' then some (taken.reverse, rest) else backquoted quoted (c :: taken) rest

def documentLines (announced : Announced) : (fuel : Nat) → (taken : List Bytes) → Bytes → Bytes × Bytes
  | 0, taken, rest => (taken.reverse.flatten, rest)
  | _ + 1, taken, [] => (taken.reverse.flatten, [])
  | fuel + 1, taken, text =>
    let line := text.takeWhile (· != '\n')
    let rest := text.drop (line.length + 1)
    let shown := if announced.indented then line.dropWhile (· == '\t') else line
    if shown == announced.delimiter then (taken.reverse.flatten, rest)
    else
      let ending : Bytes := if line.length < text.length then ['\n'] else []
      documentLines announced fuel ((shown ++ ending) :: taken) rest

/-- The delimiter of a document: a word without its quotes. -/
def delimiterOf (word : Word) : Bytes :=
  word.flatMap fun part =>
    match part with
    | .literal text | .quoted text => text
    | _ => []

/-- Operators, longer ones first. -/
def operators : List String := ["&&", "||", ";;", "&", "|", ";", "(", ")"]

def redirectOperators : List String := ["<<-", "<<", "<&", "<>", "<", ">>", ">&", ">|", ">"]

def leadingOperator? (known : List String) (text : Bytes) : Option String :=
  known.find? fun operator => operator.toList.isPrefixOf text

def Token.endsList (token : Token) : Bool :=
  match token with
  | .finish => true
  | .operator text => text == ")" || text == ";;"
  | _ =>
    match token.keyword? with
    | some found => ["do", "done", "elif", "else", "esac", "fi", "then", "\x7d"].contains found
    | none => false

def nothing : Command := .simple 0 [] [] []

def sequenced (before : Option Command) (command : Command) : Command :=
  match before with
  | some before => .sequence before command
  | none => command

def specialBuiltins : List String :=
  [":", ".", "break", "continue", "eval", "exec", "exit", "export", "local", "readonly", "return", "set", "shift",
   "times", "trap", "unset"]

def pushBack (token : Token) : Parse Unit := modify fun state => { state with ahead := some token }

/-- Reads from another text, which starts at a line, and comes back. -/
def aside (text : Bytes) (line : Nat) (read : Parse α) : Parse α := do
  let state ← get
  set { state with rest := text, line := line, ahead := none }
  let result ← read
  modify fun after => { after with rest := state.rest, ahead := state.ahead, line := state.line }
  return result

mutual

def parts : (fuel : Nat) → Mode → Parse Word
  | 0, _ => refuse (bytesOf "too long")
  | fuel + 1, mode => do
    let plainly (c : Char) : Parse Word := do
      advance
      let rest ← parts fuel mode
      return (if mode.isQuoted then .quoted [c] else .literal [c]) :: rest
    match (← get).rest with
    | [] =>
      match mode.unfinished? with
      | some message => refuse (bytesOf message)
      | none => return []
    | c :: rest =>
      match mode with
      | .plain => if endsWord c then return []
      | .double => if c == '\x22' then advance; return []
      | .braces _ => if c == '\x7d' then advance; return []
      | _ => pure ()
      if c == '$' then
        advance
        let first ← dollar fuel mode.isQuoted
        return first :: (← parts fuel mode)
      else if c == '\x60' then
        let quoted := match mode with
          | .double | .braces true => true
          | _ => false
        match backquoted quoted [] (rest) with
        | none =>
          advanceBy (rest.length + 1)
          refuse (bytesOf "EOF in backquote substitution")
        | some (script, after) =>
          let body ← aside script 1 (listFrom fuel false true none)
          advanceBy (rest.length + 1 - after.length)
          return .substitution mode.isQuoted body.toList :: (← parts fuel mode)
      else if c == '\\' then
        match rest with
        | [] => plainly c
        | next :: _ =>
          if next == '\n' then
            advanceBy 2
            parts fuel mode
          else if !mode.isQuoted || mode.escapes.contains next then
            advanceBy 2
            return .quoted [next] :: (← parts fuel mode)
          else plainly c
      else if c == '\x27' && !mode.isQuoted then
        let inside := rest.takeWhile (· != '\x27')
        if inside.length = rest.length then
          advanceBy (rest.length + 1)
          refuse (bytesOf "Unterminated quoted string")
        else
          advanceBy (inside.length + 2)
          return .quoted inside :: (← parts fuel mode)
      else if c == '\x22' && (match mode with | .plain | .braces _ => true | _ => false) then
        advance
        let inside ← parts fuel .double
        let more ← parts fuel mode
        return (if isWholeList inside then inside else .quoted [] :: inside) ++ more
      else
        match mode with
        | .arithmetic depth =>
          if c == ')' then
            if depth = 0 then
              if rest.head? == some ')' then
                advanceBy 2
                return []
              else plainly c
            else
              advance
              return .quoted [c] :: (← parts fuel (.arithmetic (depth - 1)))
          else if c == '(' then
            advance
            return .quoted [c] :: (← parts fuel (.arithmetic (depth + 1)))
          else plainly c
        | _ => plainly c

def dollar : (fuel : Nat) → (quoted : Bool) → Parse Part
  | 0, _ => refuse (bytesOf "too long")
  | fuel + 1, quoted => do
    let named (name : Bytes) : Parse Part := do
      advanceBy name.length
      return .parameter quoted name .value
    match (← get).rest with
    | '(' :: '(' :: _ =>
      advanceBy 2
      return .arithmetic quoted (merged (← parts fuel (.arithmetic 0)))
    | '(' :: _ =>
      advance
      let body ← listFrom fuel false true none
      let token ← nextToken fuel
      if token.isOperator ")" then return .substitution quoted body.toList
      else unexpected token (some "\x22)\x22")
    | c :: rest =>
      if c == '\x7b' then
        advance
        braced fuel quoted
      else if isNameStart c then named (c :: rest.takeWhile isNameByte)
      else if c.isDigit || "@*#?-$!".toList.contains c then named [c]
      else return (if quoted then .quoted ['$'] else .literal ['$'])
    | [] => return (if quoted then .quoted ['$'] else .literal ['$'])

def braced : (fuel : Nat) → (quoted : Bool) → Parse Part
  | 0, _ => refuse (bytesOf "too long")
  | fuel + 1, quoted => do
    let nameAhead (text : Bytes) : Bytes :=
      match text with
      | [] => []
      | c :: rest =>
        if isNameStart c then c :: rest.takeWhile isNameByte
        else if c.isDigit then c :: rest.takeWhile Char.isDigit
        else if "@*#?-$!".toList.contains c then [c]
        else []
    let text := (← get).rest
    let counted := nameAhead (text.drop 1)
    if text.head? == some '#' && !counted.isEmpty && (text.drop (counted.length + 1)).head? == some '\x7d' then
      advanceBy (counted.length + 2)
      return .parameter quoted counted .length
    else
      let isCutShort := counted.isEmpty && (text.drop 1).head? != some '\x7d' && (text.drop 2).head? == some '\x7d'
      let name := if text.head? == some '#' && isCutShort then [] else nameAhead text
      advanceBy name.length
      let fallback (orEmpty : Bool) (sign : Char) : Option (Word → Use) :=
        match sign with
        | '-' => some (.fallback .useWord orEmpty)
        | '=' => some (.fallback .assignWord orEmpty)
        | '?' => some (.fallback .complain orEmpty)
        | '+' => some (.fallback .alternative orEmpty)
        | _ => none
      let (use, taken, inside) : Option (Word → Use) × Nat × Bool :=
        match name.isEmpty, text.drop name.length with
        | true, sign :: _ => (none, if sign == '\x7d' then 0 else 1, quoted)
        | false, ':' :: sign :: _ => (fallback true (if sign == '\x7d' then '-' else sign), 2, quoted)
        | false, '%' :: '%' :: _ => (some (.trim true true), 2, false)
        | false, '%' :: _ => (some (.trim true false), 1, false)
        | false, '#' :: '#' :: _ => (some (.trim false true), 2, false)
        | false, '#' :: _ => (some (.trim false false), 1, false)
        | false, sign :: _ =>
          if sign == '\x7d' then (some fun _ => .value, 0, quoted) else (fallback false sign, 1, quoted)
        | _, [] => (none, 0, quoted)
      advanceBy taken
      let word ← parts fuel (.braces inside)
      return .parameter quoted name ((use.getD fun _ => .unknown) (merged word))

def documents : (fuel : Nat) → List Announced → Parse Unit
  | 0, _ => refuse (bytesOf "too long")
  | _ + 1, [] => modify fun state => { state with announced := [] }
  | fuel + 1, announced :: others => do
    let text := (← get).rest
    let (body, rest) := documentLines announced (text.length + 1) [] text
    let word ←
      if announced.quoted then pure [.quoted body]
      else aside body (← get).line (parts fuel .document)
    advanceBy (text.length - rest.length)
    modify fun state => { state with documents := (announced.number, merged word) :: state.documents }
    documents fuel others

/-- The next token, which is then gone. -/
def nextToken : (fuel : Nat) → Parse Token
  | 0 => refuse (bytesOf "too long")
  | fuel + 1 => do
    let state ← get
    match state.ahead with
    | some token =>
      set { state with ahead := none }
      return token
    | none =>
      match state.rest with
      | [] => return .finish
      | c :: rest =>
        if c == ' ' || c == '\t' then
          advance
          nextToken fuel
        else if c == '\\' && rest.head? == some '\n' then
          advanceBy 2
          nextToken fuel
        else if c == '#' then
          advanceBy ((c :: rest).takeWhile (· != '\n')).length
          nextToken fuel
        else if c == '\n' then
          advance
          documents fuel state.announced
          return .newline
        else
          match leadingOperator? operators state.rest, leadingOperator? redirectOperators state.rest,
              leadingOperator? redirectOperators rest with
          | some text, _, _ =>
            advanceBy text.length
            return .operator text
          | _, some text, _ =>
            advanceBy text.length
            return .redirect none text
          | _, _, some text =>
            if c.isDigit then
              advanceBy (text.length + 1)
              return .redirect (some (c.toNat - 48)) text
            else return .word (merged (← parts fuel .plain))
          | _, _, _ => return .word (merged (← parts fuel .plain))

/-- The next token, which stays. -/
def peekToken : (fuel : Nat) → Parse Token
  | 0 => refuse (bytesOf "too long")
  | fuel + 1 => do
    let token ← nextToken fuel
    pushBack token
    return token

def skipNewlines : (fuel : Nat) → Parse Unit
  | 0 => refuse (bytesOf "too long")
  | fuel + 1 => do
    let token ← nextToken fuel
    if token.isNewline then skipNewlines fuel else pushBack token

def expectWord : (fuel : Nat) → (word : String) → Parse Unit
  | 0, _ => refuse (bytesOf "too long")
  | fuel + 1, word => do
    let token ← nextToken fuel
    unless token.keyword? == some word do unexpected token (some ("\x22" ++ word ++ "\x22"))

/-- Reads commands one after another, up to the end of the line or, below the top, up to what ends a
list. -/
def listFrom : (fuel : Nat) → (top mayEnd : Bool) → (before : Option Command) → Parse (Option Command)
  | 0, _, _, _ => refuse (bytesOf "too long")
  | fuel + 1, top, mayEnd, before => do
    unless top do skipNewlines fuel
    let token ← nextToken fuel
    match token with
    | .newline => return before
    | .finish =>
      pushBack token
      return before
    | token =>
      pushBack token
      if !top && mayEnd && token.endsList then return before
      else
        let command ← andOr fuel
        let token ← nextToken fuel
        let isBackground := token.isOperator "&"
        let all := sequenced before (if isBackground then .background command else command)
        if isBackground || token.isOperator ";" then listFrom fuel top true (some all)
        else
          match token with
          | .newline | .finish =>
            pushBack token
            listFrom fuel top true (some all)
          | token =>
            if top then unexpected token none
            else
              pushBack token
              return some all

/-- Reads pipelines that depend on the results of those before them. -/
def andOr : (fuel : Nat) → Parse Command
  | 0 => refuse (bytesOf "too long")
  | fuel + 1 => do
    let first ← pipeline fuel
    andOrFrom fuel first

def andOrFrom : (fuel : Nat) → (before : Command) → Parse Command
  | 0, _ => refuse (bytesOf "too long")
  | fuel + 1, before => do
    let token ← nextToken fuel
    if token.isOperator "&&" then
      skipNewlines fuel
      andOrFrom fuel (.both before (← pipeline fuel))
    else if token.isOperator "||" then
      skipNewlines fuel
      andOrFrom fuel (.either before (← pipeline fuel))
    else
      pushBack token
      return before

def pipeline : (fuel : Nat) → Parse Command
  | 0 => refuse (bytesOf "too long")
  | fuel + 1 => do
    let token ← nextToken fuel
    let isNegated := token.keyword? == some "!"
    unless isNegated do pushBack token
    let first ← command fuel
    let more ← stages fuel
    let all := if more.isEmpty then first else .pipeline (first :: more)
    return if isNegated then .negated all else all

def stages : (fuel : Nat) → Parse (List Command)
  | 0 => refuse (bytesOf "too long")
  | fuel + 1 => do
    let token ← nextToken fuel
    if token.isOperator "|" then
      skipNewlines fuel
      let first ← command fuel
      return first :: (← stages fuel)
    else
      pushBack token
      return []

def command : (fuel : Nat) → Parse Command
  | 0 => refuse (bytesOf "too long")
  | fuel + 1 => do
    let token ← nextToken fuel
    let line := (← get).line
    match token.keyword? with
    | some "if" => finishCompound fuel line (← branches fuel)
    | some "while" => finishCompound fuel line (← loopBody fuel false)
    | some "until" => finishCompound fuel line (← loopBody fuel true)
    | some "for" => finishCompound fuel line (← eachBody fuel line)
    | some "case" =>
      let subject ← nextToken fuel
      match subject with
      | .word word =>
        skipNewlines fuel
        expectWord fuel "in"
        finishCompound fuel line (.choose line word (← arms fuel))
      | token => unexpected token (some "word")
    | some word =>
      if word == "\x7b" then
        let body ← listFrom fuel false false none
        expectWord fuel "\x7d"
        finishCompound fuel line (body.getD nothing)
      else unexpected token none
    | none =>
      if token.isOperator "(" then
        let body ← listFrom fuel false false none
        let token ← nextToken fuel
        unless token.isOperator ")" do unexpected token (some "\x22)\x22")
        return .subshell line (body.getD nothing) (← redirections fuel)
      else
        match token with
        | .word _ | .redirect _ _ =>
          pushBack token
          simple fuel line [] [] []
        | token => unexpected token none

/-- Reads the redirections behind a command made of commands. -/
def finishCompound : (fuel line : Nat) → Command → Parse Command
  | 0, _, _ => refuse (bytesOf "too long")
  | fuel + 1, line, body => do
    let targets ← redirections fuel
    return if targets.isEmpty then body else .redirected line body targets

def branches : (fuel : Nat) → Parse Command
  | 0 => refuse (bytesOf "too long")
  | fuel + 1 => do
    let condition ← listFrom fuel false false none
    expectWord fuel "then"
    let yes ← listFrom fuel false false none
    let token ← nextToken fuel
    let whole (no : Option Command) : Command := .branch (condition.getD nothing) (yes.getD nothing) no
    match token.keyword? with
    | some "elif" => return whole (some (← branches fuel))
    | some "else" =>
      let no ← listFrom fuel false false none
      expectWord fuel "fi"
      return whole (some (no.getD nothing))
    | some "fi" => return whole none
    | _ => unexpected token (some "\x22fi\x22")

def loopBody : (fuel : Nat) → (inverted : Bool) → Parse Command
  | 0, _ => refuse (bytesOf "too long")
  | fuel + 1, inverted => do
    let condition ← listFrom fuel false false none
    expectWord fuel "do"
    let body ← listFrom fuel false false none
    expectWord fuel "done"
    return .loop inverted (condition.getD nothing) (body.getD nothing)

def eachBody : (fuel line : Nat) → Parse Command
  | 0, _ => refuse (bytesOf "too long")
  | fuel + 1, line => do
    let token ← nextToken fuel
    let name? : Option Bytes :=
      match token with
      | .word parts => (plainText? parts).filter isName
      | _ => none
    match name? with
    | none => refuse (bytesOf "Bad for loop variable")
    | some name =>
      skipNewlines fuel
      let token ← nextToken fuel
      let words : Option (List Word) ←
        if token.keyword? == some "in" then
          let words ← wordsAhead fuel
          let token ← nextToken fuel
          unless token.isNewline || token.isOperator ";" do unexpected token none
          pure (some words)
        else
          unless token.isOperator ";" do pushBack token
          pure none
      skipNewlines fuel
      expectWord fuel "do"
      let body ← listFrom fuel false false none
      expectWord fuel "done"
      return .each line name words (body.getD nothing)

def wordsAhead : (fuel : Nat) → Parse (List Word)
  | 0 => refuse (bytesOf "too long")
  | fuel + 1 => do
    let token ← nextToken fuel
    match token with
    | .word parts => return parts :: (← wordsAhead fuel)
    | token =>
      pushBack token
      return []

def arms : (fuel : Nat) → Parse (List (List Word × Option Command))
  | 0 => refuse (bytesOf "too long")
  | fuel + 1 => do
    skipNewlines fuel
    let token ← nextToken fuel
    if token.keyword? == some "esac" then return []
    else
      unless token.isOperator "(" do pushBack token
      let patterns ← patternsAhead fuel
      requireClosing (← nextToken fuel)
      let body ← listFrom fuel false true none
      skipNewlines fuel
      let token ← nextToken fuel
      if token.keyword? == some "esac" then return [(patterns, body)]
      else if token.isOperator ";;" then return (patterns, body) :: (← arms fuel)
      else unexpected token (some "\x22;;\x22")

def patternsAhead : (fuel : Nat) → Parse (List Word)
  | 0 => refuse (bytesOf "too long")
  | fuel + 1 => do
    let token ← nextToken fuel
    let pattern : Word :=
      match token with
      | .word parts => parts
      | _ => []
    let token ← nextToken fuel
    if token.isOperator "|" then return pattern :: (← patternsAhead fuel)
    else
      pushBack token
      return [pattern]

def redirections : (fuel : Nat) → Parse (List Redirection)
  | 0 => refuse (bytesOf "too long")
  | fuel + 1 => do
    let token ← nextToken fuel
    match token with
    | .redirect descriptor operator =>
      let first ← redirection fuel descriptor operator
      return first :: (← redirections fuel)
    | token =>
      pushBack token
      return []

def redirection : (fuel : Nat) → (descriptor : Option Nat) → (operator : String) → Parse Redirection
  | 0, _, _ => refuse (bytesOf "too long")
  | fuel + 1, descriptor, operator => do
    let token ← nextToken fuel
    match token with
    | .word word =>
      let input := descriptor.getD 0
      let output := descriptor.getD 1
      match operator with
      | "<" | "<>" => return .file input .read word
      | ">" | ">|" => return .file output .write word
      | ">>" => return .file output .append word
      | "<&" => return .copy input word
      | ">&" => return .copy output word
      | operator =>
        let isQuoted := word.any fun part =>
          match part with
          | .literal _ => false
          | _ => true
        let state ← get
        set { state with
          announced := state.announced ++ [(⟨state.count, delimiterOf word, isQuoted, operator == "<<-"⟩ : Announced)]
          count := state.count + 1 }
        return .document input state.count
    | token => unexpected token none

/-- Reads a simple command, of which the assignments, words and redirections so far are known. -/
def simple : (fuel line : Nat) → List (Bytes × Word) → List Word → List Redirection → Parse Command
  | 0, _, _, _, _ => refuse (bytesOf "too long")
  | fuel + 1, line, assignments, words, targets => do
    let token ← nextToken fuel
    match token with
    | .word word =>
      match (if words.isEmpty then assignment? word else none) with
      | some assignment => simple fuel line (assignments ++ [assignment]) words targets
      | none => simple fuel line assignments (words ++ [word]) targets
    | .redirect descriptor operator =>
      let target ← redirection fuel descriptor operator
      simple fuel line assignments words (targets ++ [target])
    | token =>
      match token.isOperator "(" && assignments.isEmpty && targets.isEmpty, words with
      | true, [name] =>
        requireClosing (← nextToken fuel)
        match plainText? name with
        | some name =>
          if isName name && !specialBuiltins.any (fun special => special.toList == name) then
            skipNewlines fuel
            return .define name (← command fuel)
          else refuse (bytesOf "Bad function name")
        | none => refuse (bytesOf "Bad function name")
      | _, _ =>
        pushBack token
        return .simple line assignments words targets

end

/-- Reads the commands of the next line. There are none on an empty line, and at the end of the script
there is no line. -/
def nextLine (fuel : Nat) : Parse (Option (Option Command)) := do
  let token ← nextToken fuel
  match token with
  | .finish => return none
  | .newline => return some none
  | token =>
    pushBack token
    return some (← listFrom fuel true false none)

end Verbatim.Tool.Shell
