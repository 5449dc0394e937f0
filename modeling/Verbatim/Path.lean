/-!
Extensions of paths. The file name of a path is its last part; empty parts and single points do not
count, and a path that ends by going up has none. The extension follows the last point of the file
name, unless the name starts with it.
-/

namespace Verbatim.Path

def parts : List Char → List (List Char)
  | [] => [[]]
  | c :: rest =>
    match parts rest with
    | part :: more => if c == '/' then [] :: part :: more else (c :: part) :: more
    | [] => [[c]]

def fileName? (path : List Char) : Option (List Char) :=
  match ((parts path).filter fun part => part != [] && part != ['.']).getLast? with
  | some name => if name = ['.', '.'] then none else some name
  | none => none

def extension? (path : List Char) : Option (List Char) :=
  match fileName? path with
  | none => none
  | some name =>
    let behind := (name.reverse.takeWhile (· != '.')).reverse
    if behind.length + 1 < name.length then some behind else none

/-- Extensions are compared without leading points and by lower-case letters. -/
def normalize (extension : List Char) : List Char := (extension.dropWhile (· == '.')).map Char.toLower

end Verbatim.Path
