import ApiContract.Host.World

/-!
# Replacing a file by a draft

A file that is to be replaced is not written in place.  Its text goes into a draft, a hidden file
beside it under a name that nothing else has, and the draft is then moved over it.  If a step fails
the draft is removed.
-/

namespace ApiContract.Host

namespace FileSystem

/-- Takes away what stands at a place. -/
def remove (fs : FileSystem) (place : Place) : FileSystem :=
  ⟨fs.entries.filter fun e => e.1 != place⟩

/-- Moves a file to where a path leads.  A file that stands there is replaced; a directory is in
the way. -/
def move? (fs : FileSystem) (cwd : Place) (source : Place) (p : Path) : Option FileSystem :=
  match fs.lookup? source with
  | some (.file octets) => (fs.replace? cwd p octets).map (·.remove source)
  | _ => none

/-- The name of a draft of a file. -/
def draftName (name : String) (n : Nat) : String := "." ++ name ++ "." ++ toString n ++ ".tmp"

/-- The place for a new draft of a file in a directory: the first number whose name is free.  Among
one number more than there are entries one must be. -/
def draftPlace? (fs : FileSystem) (directory : Place) (name : String) : Option Place :=
  ((List.range (fs.entries.length + 1)).map fun n => directory ++ [draftName name n]).find?
    fun place => (fs.lookup? place).isNone

end FileSystem

namespace World

/-- Creates an empty draft in the directory that a path lies in. -/
def createDraft? (w : World) (p : Path) : Option (World × Place) :=
  match w.files.target w.cwd p.parent with
  | .found directory .directory =>
      (w.files.draftPlace? directory p.name).map fun draft =>
        ({ w with files := w.files.put draft (.file []) }, draft)
  | _ => none

/-- Writes a text into a draft, unless it has no bytes. -/
def fillDraft? (w : World) (draft : Place) (text : String) : Option World :=
  (encode? text).map fun octets => { w with files := w.files.put draft (.file octets) }

/-- Moves a draft over the file that a path leads to. -/
def moveDraft? (w : World) (draft : Place) (p : Path) : Option World :=
  (w.files.move? w.cwd draft p).map fun files => { w with files }

/-- Removes a draft. -/
def discardDraft (w : World) (draft : Place) : World :=
  { w with files := w.files.remove draft }

/-- The world after a draft has become the file at a path, and whether it could. -/
def finishDraft (w : World) (draft : Place) (p : Path) (text : String) : World × Bool :=
  match w.fillDraft? draft text with
  | none => (w.discardDraft draft, false)
  | some filled => match filled.moveDraft? draft p with
      | none => (filled.discardDraft draft, false)
      | some moved => (moved, true)

/-- The world after a file is replaced by a text, and whether it could be.  The directories that the
file lies in are made first and stay. -/
def replaceFile (w : World) (p : Path) (text : String) : World × Bool :=
  match w.makeDirectory? p.parent with
  | none => (w, false)
  | some ready => match ready.createDraft? p with
      | none => (ready, false)
      | some (drafted, draft) => drafted.finishDraft draft p text

end World

end ApiContract.Host
