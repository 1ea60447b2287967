import HadcdAgent.Lib.PyStr

/-!
# POSIX paths as `pathlib` and `os.path` treat them
-/

namespace Lib

/-- A `PurePosixPath`: its root (`""`, `"/"` or `"//"`) and its segments. -/
structure PurePath where
  root : Str
  parts : List Str
  deriving DecidableEq

namespace PurePath

/-- Exactly two leading slashes are a root of their own. -/
def rootOf : Str → Str
  | '/' :: '/' :: '/' :: _ => "/"
  | '/' :: '/' :: _ => "//"
  | '/' :: _ => "/"
  | _ => []

def ofStr (t : Str) : PurePath :=
  ⟨rootOf t, (t.splitOn '/').filter fun s => s ≠ [] && s ≠ ['.']⟩

/-- `p / t`: an absolute `t` takes the place of `p`. -/
def join (p : PurePath) (t : Str) : PurePath :=
  let q := ofStr t
  if q.root = [] then ⟨p.root, p.parts ++ q.parts⟩ else q

def str (p : PurePath) : Str :=
  if p.root = [] ∧ p.parts = [] then ['.'] else p.root ++ List.intercalate ['/'] p.parts

def isRelativeTo (p q : PurePath) : Bool := p.root = q.root && q.parts.isPrefixOf p.parts

/-- One segment of a path on its way through the directories. -/
def walk (dirs : List Str) (s : Str) : List Str := if s = ['.', '.'] then dirs.dropLast else dirs ++ [s]

/-- `os.path.realpath` of an absolute path on a host without symbolic links. -/
def lexical (t : Str) : Str :=
  let p := ofStr t
  str ⟨p.root, p.parts.foldl walk []⟩

end PurePath
end Lib
