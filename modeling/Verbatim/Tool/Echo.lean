import Verbatim.Tool.Escape

/-!
Printing arguments with spaces between them and a line end behind them.
-/

namespace Verbatim.Tool

def spaced (words : List Bytes) : Bytes := List.flatten (words.intersperse [' '])

namespace Echo

def escapes : EscapeRules where
  letters := "abefnrtv\\".toList
  longOctal := true
  stops := true
  hex := true

def options : List Bytes → List Char × List Bytes
  | [] => ([], [])
  | argument :: rest =>
    match argument with
    | '-' :: letter :: letters =>
      if (letter :: letters).all ("neE".toList.contains ·) then
        let (more, words) := options rest
        (letter :: letters ++ more, words)
      else ([], argument :: rest)
    | _ => ([], argument :: rest)

/-- The last option for or against escapes counts. -/
def echo : Program := fun call =>
  let (given, words) := options call.arguments
  let line := if given.contains 'n' then [] else ['\n']
  if (given.reverse.find? (· != 'n')) == some 'e' then
    let shown := escapes.unescape (spaced words)
    call.prints (if shown.stopped then shown.text else shown.text ++ line)
  else call.prints (spaced words ++ line)

end Echo

end Verbatim.Tool
