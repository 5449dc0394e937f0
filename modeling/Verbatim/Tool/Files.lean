import Verbatim.Tool.Bytes

/-!
Files as programs see them. A path is walked part by part, from the root or from the current directory. It
leads to something, or the walk stops at a part that is missing, is no directory, or has too long a name.
-/

namespace Verbatim.Tool

/-- What a path leads to. -/
inductive Found where
  | file (content : Bytes)
  /-- A program or another file of the host, of which the content is not known. -/
  | host (path : Bytes)
  /-- A device that can be read without an end. -/
  | endless
  | directory
  /-- A part of the path is missing. -/
  | nothing
  /-- A part of the path is no directory and has more behind it. -/
  | throughFile
  | tooLong
deriving DecidableEq

/-- The files that programs have written, by their paths from the root, and the current directory. The
directories, devices and programs are those of every host. -/
structure Files where
  written : List (Bytes × Bytes) := []
  here : Bytes := ['/']

namespace Files

def directories : List Bytes :=
  ["/", "/bin", "/boot", "/dev", "/dev/fd", "/dev/pts", "/dev/shm", "/etc", "/home", "/lib", "/media", "/mnt", "/opt",
   "/proc", "/root", "/run", "/sbin", "/srv", "/sys", "/tmp", "/usr", "/usr/bin", "/usr/lib", "/usr/local",
   "/usr/local/bin", "/usr/local/sbin", "/usr/sbin", "/usr/share", "/var", "/var/lib", "/var/log", "/var/tmp"].map bytesOf

def programDirectories : List Bytes := ["/bin", "/usr/bin"].map bytesOf

def programs : List Bytes := ["cat", "dash", "echo", "false", "printf", "sh", "sleep", "tr", "true"].map bytesOf

def hostFiles : List Bytes := ["/etc/group", "/etc/hosts", "/etc/passwd"].map bytesOf

def endlessDevices : List Bytes := ["/dev/random", "/dev/urandom", "/dev/zero"].map bytesOf

def isProgram (path : Bytes) : Bool :=
  programDirectories.any fun directory => programs.any fun name => directory ++ '/' :: name == path

/-- The bytes that a part of a path can have. -/
def partLimit : Nat := 255

/-- The bytes that a path can have. -/
def pathLimit : Nat := 4095

def parent (name : Bytes) : Bytes :=
  let front := (name.reverse.dropWhile (· != '/')).reverse
  if front.length ≤ 1 then (if front.isEmpty then ['.'] else front) else front.dropLast

/-- The parts of a path, with `.` and `..` taken away. The parts are held last first. -/
def resolved : (parts : List Bytes) → List Bytes → List Bytes
  | parts, [] => parts.reverse
  | parts, part :: rest =>
    if part.isEmpty || part == ['.'] then resolved parts rest
    else if part == ['.', '.'] then resolved (parts.drop 1) rest
    else resolved (part :: parts) rest

def locate (files : Files) (path : Bytes) : Bytes :=
  let whole := if path.head? == some '/' then path else files.here ++ '/' :: path
  '/' :: List.flatten ((resolved [] (whole.splitOn '/')).intersperse ['/'])

/-- What is in a directory under a name; both are known to exist up to there. -/
def step (directory part : Bytes) : Bytes :=
  if part == ['.', '.'] then parent directory
  else if directory == ['/'] then '/' :: part
  else directory ++ '/' :: part

def entry (files : Files) (path : Bytes) : Found :=
  if path == bytesOf "/dev/null" then .file []
  else if directories.contains path then .directory
  else if endlessDevices.contains path then .endless
  else if isProgram path || hostFiles.contains path then .host path
  else
    match files.written.lookup path with
    | some content => .file content
    | none => .nothing

def walk (files : Files) : (directory : Bytes) → (parts : List Bytes) → Found
  | _, [] => .directory
  | directory, part :: rest =>
    if part.isEmpty || part == ['.'] then walk files directory rest
    else if partLimit < part.length then .tooLong
    else
      match files.entry (step directory part) with
      | .directory => walk files (step directory part) rest
      | .nothing => .nothing
      | found => if rest.isEmpty then found else .throughFile

def look (files : Files) (path : Bytes) : Found :=
  if path.isEmpty then .nothing
  else if pathLimit < path.length then .tooLong
  else files.walk (if path.head? == some '/' then ['/'] else files.here) (path.splitOn '/')

/-- Adds to the end of the file at a path from the root, which exists from then on. -/
def append (files : Files) (path addition : Bytes) : Files :=
  let before := (files.written.lookup path).getD []
  { files with written := (path, before ++ addition) :: files.written.filter (·.1 != path) }

def clear (files : Files) (path : Bytes) : Files :=
  { files with written := (path, []) :: files.written.filter (·.1 != path) }

end Files

end Verbatim.Tool
