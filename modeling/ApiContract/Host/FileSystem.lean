import ApiContract.Host.Path

/-!
# Files and directories

A file system is a table of what stands at every place; the root is a directory.  Writing a file
replaces it as a whole or fails and changes nothing.
-/

namespace ApiContract.Host

inductive Entry where
  | directory
  | file (octets : List UInt8)
  deriving DecidableEq, Repr

/-- A place: the names on the way from the root. -/
abbrev Place := List String

structure FileSystem where
  entries : List (Place × Entry)
  deriving Repr

/-- Where a path leads: to an entry, to a place in a directory where nothing stands, or
nowhere. -/
inductive Target where
  | found (place : Place) (entry : Entry)
  | vacant (place : Place)
  | broken
  deriving DecidableEq, Repr

namespace FileSystem

def empty : FileSystem := ⟨[]⟩

/-- What stands at a place. -/
def lookup? (fs : FileSystem) (place : Place) : Option Entry :=
  if place.isEmpty then some .directory
  else (fs.entries.find? (·.1 == place)).map (·.2)

/-- Puts an entry at a place. -/
def put (fs : FileSystem) (place : Place) (entry : Entry) : FileSystem :=
  if fs.entries.any (·.1 == place) then
    ⟨fs.entries.map fun e => if e.1 == place then (place, entry) else e⟩
  else ⟨fs.entries ++ [(place, entry)]⟩

/-- Follows steps from a directory. -/
def follow (fs : FileSystem) (place : Place) : List String → Target
  | [] => .found place .directory
  | step :: rest =>
      if step == ".." then fs.follow place.dropLast rest
      else
        let next := place ++ [step]
        match fs.lookup? next with
        | some .directory => fs.follow next rest
        | some (.file octets) => if rest.isEmpty then .found next (.file octets) else .broken
        | none => if rest.isEmpty then .vacant next else .broken

/-- Where a path leads from a working directory. -/
def target (fs : FileSystem) (cwd : Place) (p : Path) : Target :=
  fs.follow (if p.isAbsolute then [] else cwd) p.parts

/-- The content of a file. -/
def read? (fs : FileSystem) (cwd : Place) (p : Path) : Option (List UInt8) :=
  match fs.target cwd p with
  | .found _ (.file octets) => some octets
  | _ => none

/-- Makes the directories along steps that are missing; fails at a file. -/
def makeAlong (fs : FileSystem) (place : Place) : List String → Option FileSystem
  | [] => some fs
  | step :: rest =>
      if step == ".." then fs.makeAlong place.dropLast rest
      else
        let next := place ++ [step]
        match fs.lookup? next with
        | some .directory => fs.makeAlong next rest
        | some (.file _) => none
        | none => (fs.put next .directory).makeAlong next rest

/-- Makes a directory and those that it lies in. -/
def makeDirectory (fs : FileSystem) (cwd : Place) (p : Path) : Option FileSystem :=
  fs.makeAlong (if p.isAbsolute then [] else cwd) p.parts

/-- Puts a file where a file stands or nothing does; fails where a directory stands. -/
def replace? (fs : FileSystem) (cwd : Place) (p : Path) (octets : List UInt8) :
    Option FileSystem :=
  match fs.target cwd p with
  | .found place (.file _) => some (fs.put place (.file octets))
  | .vacant place => some (fs.put place (.file octets))
  | _ => none

end FileSystem

end ApiContract.Host
