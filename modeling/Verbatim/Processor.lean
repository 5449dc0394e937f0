import Verbatim.Assembly
import Verbatim.Tool.Command
import Verbatim.Xml.Reader

/-!
Processors convert between source, tree and document. All conversions follow from reading a source; a
processor may replace them. Conversions may have effects of their own, which the monad carries.
-/

namespace Verbatim

def settle [Monad m] (result : Except Fault α) : ExceptT Fault m α := ExceptT.mk (pure result)

/-- An outcome that can fail but breaks no contract. -/
def Fault.ofError : Except Error α → Except Fault α
  | .ok value => .ok value
  | .error problem => .error (.error problem)

structure Processor (m : Type → Type) [Monad m] where
  language : String
  treeFromSource : String → ParseMode → ExceptT Fault m SyntaxTree
  sourceFromTree : SyntaxTree → ExceptT Fault m String := fun tree => settle (.ok tree.generate)
  xmlFromTree : SyntaxTree → ExceptT Fault m String := fun tree => settle (Fault.ofError (Xml.write tree))
  treeFromXml : String → ExceptT Fault m SyntaxTree := fun xml => settle (Xml.read xml)
  xmlFromSource : String → ParseMode → ExceptT Fault m String := fun source mode => do
    xmlFromTree (← treeFromSource source mode)
  sourceFromXml : String → ExceptT Fault m String := fun xml => do
    sourceFromTree (← treeFromXml xml)

/-- The tree that a grammar makes of a source. -/
def Grammar.tree (grammar : Grammar) (source : String) (mode : ParseMode) : Except Fault SyntaxTree :=
  let parsed := grammar.parse source
  Assembly.build parsed.tokens parsed.events mode

namespace Processor

variable {m : Type → Type} [Monad m]

def ofGrammar (grammar : Grammar) : Processor m where
  language := grammar.name
  treeFromSource := fun source mode => settle (grammar.tree source mode)

/-- A processor whose trees are the documents that a tool prints for sources. A second tool may turn
documents back into source. There is no lenient way to read what a tool prints. -/
def external (host : Tool.Host) (language : String) (xmlTool : Tool.Command) (codeTool : Option Tool.Command) :
    Processor m where
  language := language
  treeFromSource := fun source _ => do
    let xml ← settle (Fault.ofError (xmlTool.run host source))
    settle (Xml.read xml)
  xmlFromSource := fun source _ => settle (Fault.ofError (xmlTool.run host source))
  sourceFromTree := fun tree =>
    match codeTool with
    | some tool => do
      let xml ← settle (Fault.ofError (Xml.write tree))
      settle (Fault.ofError (tool.run host xml))
    | none => settle (.ok tree.generate)
  sourceFromXml := fun xml =>
    match codeTool with
    | some tool => settle (Fault.ofError (tool.run host xml))
    | none => do
      let tree ← settle (Xml.read xml)
      settle (.ok tree.generate)

end Processor

end Verbatim
