/-!
# Paths

A path is a root and the names of its steps.  Empty steps and single dots say nothing and are left
out; double dots stay, because what they mean depends on the file system.
-/

namespace ApiContract.Host

/-- A path.  The root is empty for a relative path; two slashes are a root of their own. -/
structure Path where
  root : String
  parts : List String
  deriving DecidableEq, Repr

namespace Path

/-- The root of a path text. -/
def rootOf : List Char → String
  | '/' :: '/' :: '/' :: _ => "/"
  | '/' :: '/' :: _ => "//"
  | '/' :: _ => "/"
  | _ => ""

/-- The parts between slashes. -/
def splitParts : List Char → List (List Char)
  | [] => [[]]
  | c :: rest =>
      if c == '/' then [] :: splitParts rest
      else match splitParts rest with
        | [] => [[c]]
        | part :: parts => (c :: part) :: parts

/-- Whether a part is a step. -/
def isStep (part : List Char) : Bool := !part.isEmpty && part != ['.']

/-- The path of a text. -/
def ofString (s : String) : Path :=
  ⟨rootOf s.toList, ((splitParts s.toList).filter isStep).map String.ofList⟩

def isAbsolute (p : Path) : Bool := !p.root.isEmpty

/-- A path below another one; an absolute path stands for itself. -/
def join (base p : Path) : Path :=
  if p.isAbsolute then p else ⟨base.root, base.parts ++ p.parts⟩

/-- A path with one more step. -/
def step (p : Path) (name : String) : Path := ⟨p.root, p.parts ++ [name]⟩

/-- The path without its last step. -/
def parent (p : Path) : Path := ⟨p.root, p.parts.dropLast⟩

/-- The last step. -/
def name (p : Path) : String := p.parts.getLastD ""

def text (p : Path) : String :=
  if p.root.isEmpty && p.parts.isEmpty then "."
  else p.root ++ String.intercalate "/" p.parts

/-- The part of the name from its last dot on; a dot at either end of the name starts none. -/
def suffix (p : Path) : String :=
  let reversed := p.name.toList.reverse
  let tail := reversed.takeWhile (· != '.')
  let head := (reversed.dropWhile (· != '.')).drop 1
  if tail.isEmpty || head.isEmpty then "" else String.ofList ('.' :: tail.reverse)

end Path

end ApiContract.Host
