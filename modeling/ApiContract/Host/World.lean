import ApiContract.Host.FileSystem
import ApiContract.Text.Surrogate

/-!
# The world of a run

All that a run can see: files, the environment, standard input, and what addresses on the net
answer.  A run changes the files and nothing else.
-/

namespace ApiContract.Host

/-- What an address on the net answers. -/
structure Reply where
  status : Int
  contentType : String
  body : String
  deriving DecidableEq, Repr

structure World where
  files : FileSystem
  cwd : Place
  environment : List (String × String)
  platform : String
  replies : List (String × Reply)
  stdin : String
  isTerminal : Bool
  stamp : String
  deriving Repr

/-- A text with all line ends written as line feeds. -/
def unifyBreaks : List Char → List Char
  | [] => []
  | '\r' :: '\n' :: rest => '\n' :: unifyBreaks rest
  | '\r' :: rest => '\n' :: unifyBreaks rest
  | c :: rest => c :: unifyBreaks rest

/-- The text of bytes in UTF-8. -/
def decode? (octets : List UInt8) : Option String :=
  (String.fromUTF8? ⟨octets.toArray⟩).map fun s => String.ofList (unifyBreaks s.toList)

/-- The bytes of a text in UTF-8.  A lone surrogate has none. -/
def encode? (s : String) : Option (List UInt8) :=
  if s.toList.any fun c => (Text.surrogate? c).isSome then none else some s.toUTF8.toList

namespace World

/-- The value of an environment variable. -/
def valueOf? (w : World) (name : String) : Option String :=
  (w.environment.find? (·.1 == name)).map (·.2)

/-- Sets or removes an environment variable. -/
def setVariable (w : World) (name : String) (value : Option String) : World :=
  let others := w.environment.filter (·.1 != name)
  { w with environment := match value with
      | some v => others ++ [(name, v)]
      | none => others }

/-- What a file holds, if the path leads to one. -/
def read? (w : World) (p : Path) : Option (List UInt8) := w.files.read? w.cwd p

/-- The world with a directory made. -/
def makeDirectory? (w : World) (p : Path) : Option World :=
  (w.files.makeDirectory w.cwd p).map fun files => { w with files }

/-- The world after a text is written to a file, and whether it could be.  The directories that the
file lies in are made first and stay. -/
def write (w : World) (p : Path) (text : String) : World × Bool :=
  match w.makeDirectory? p.parent with
  | none => (w, false)
  | some ready =>
      match (encode? text).bind (ready.files.replace? ready.cwd p) with
      | some files => ({ ready with files }, true)
      | none => (ready, false)

/-- The working directory. -/
def cwdPath (w : World) : Path := ⟨"/", w.cwd⟩

/-- The answer of an address, if it can be reached. -/
def fetch? (w : World) (url : String) : Option Reply :=
  (w.replies.find? (·.1 == url)).map (·.2)

end World

end ApiContract.Host
