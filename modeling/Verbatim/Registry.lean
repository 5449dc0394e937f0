import Std.Data.TreeMap
import Verbatim.MiniJava.Parser
import Verbatim.Path
import Verbatim.Processor

/-!
Processors by language and by file extension. Registering a language or an extension again replaces
what was known of it; extensions name languages, so they follow when a language is replaced.
-/

namespace Verbatim

structure Registry (α : Type) where
  factories : Std.TreeMap String α := {}
  extensions : Std.TreeMap String String := {}

namespace Registry

def register (registry : Registry α) (language : String) (extensions : List String) (factory : α) :
    Registry α where
  factories := registry.factories.insert language factory
  extensions := extensions.foldl
    (fun known extension => known.insert (String.ofList (Path.normalize extension.toList)) language)
    registry.extensions

def byName (registry : Registry α) (language : String) : Except Error α :=
  match registry.factories[language]? with
  | some factory => .ok factory
  | none => .error (.unknownLanguage language)

def language? (registry : Registry α) (path : String) : Option String :=
  (Path.extension? path.toList).bind fun extension =>
    registry.extensions[String.ofList (Path.normalize extension)]?

def byPath (registry : Registry α) (path : String) : Except Error α :=
  match registry.language? path with
  | some language => registry.byName language
  | none => .error (.unknownLanguage path)

def languages (registry : Registry α) : List String := registry.factories.keys

def builtin [Monad m] : Registry (Processor m) :=
  ({} : Registry (Processor m)).register "mini-java" ["java"] (Processor.ofGrammar MiniJava.grammar)

end Registry

end Verbatim
