import ApiContract.Description.Inline
import ApiContract.Description.Text
import ApiContract.Description.Version
import ApiContract.Host.World
import ApiContract.Text.Blank
import ApiContract.Value.Access

/-!
# Sources of descriptions

A description comes from standard input, from an address on the net or from a file.  The suffix of
a file decides its format; the content type of an answer from the net is a hint; standard input
has no hint.

`load` gives the description as it is written, `loadInline` the description of a supported version
with every reference expanded.
-/

namespace ApiContract.Description

open Host

/-- A text, the format that it is known to be in, and the name that messages give it. -/
structure SourceText where
  text : String
  format : Option Format
  origin : String
  deriving DecidableEq, Repr

/-- The format that a file suffix stands for, in any case of letters. -/
def formatOfSuffix? (suffix : String) : Option Format :=
  let lowered := String.ofList (suffix.toList.map Char.toLower)
  if lowered == ".json" then some .json
  else if lowered == ".yaml" || lowered == ".yml" then some .yaml
  else none

/-- The format that a content type mentions. -/
def formatOfContentType? (contentType : String) : Option Format :=
  let mentions (word : String) : Bool := Value.occursIn word.toList contentType.toList
  if mentions "json" then some .json
  else if mentions "yaml" || mentions "yml" then some .yaml
  else none

/-- Whether a source is an address on the net. -/
def isAddress (source : String) : Bool :=
  "http://".toList.isPrefixOf source.toList || "https://".toList.isPrefixOf source.toList

/-- The text of a file. -/
def fileText (w : World) (source : String) : Except Fault SourceText :=
  let path := Path.ofString source
  match formatOfSuffix? path.suffix with
  | none => .error (.source (.unsupportedFile source))
  | some format => match w.read? path with
    | none => .error (.source (.missingFile source))
    | some octets => match decode? octets with
      | none => .error .misfit
      | some text => .ok ⟨text, format, source⟩

/-- What an address that nothing answers at is reported with. -/
def noRoute : String := "no route"

/-- Whether an answer has been given in full. -/
def isSuccess (reply : Reply) : Bool := 200 ≤ reply.status && reply.status < 300

/-- The text at an address. -/
def addressText (w : World) (timeout : Binary64) (url : String) : Traced Fault SourceText := do
  Traced.note .loader s!"Fetching {url} (timeout={timeout.text}s)"
  match w.fetch? url with
  | none => Traced.fail (.source (.unreachable url noRoute))
  | some reply =>
      if isSuccess reply then
        return ⟨reply.body, formatOfContentType? reply.contentType, url⟩
      else Traced.fail (.source (.refused url reply.status))

/-- The text of a source; a dash stands for standard input. -/
def sourceText (w : World) (timeout : Binary64) (source : String) : Traced Fault SourceText :=
  if source == "-" then pure ⟨w.stdin, none, "stdin"⟩
  else if isAddress source then addressText w timeout source
  else Traced.lift (fileText w source)

/-- The description that a source text holds; a blank text holds none. -/
def ofSourceText (s : SourceText) : Except Fault Value :=
  if s.text.toList.all Text.isBlankOrSeparator then .error (.source (.empty s.origin))
  else ofText s.format s.origin s.text.toList

/-- The description of a source. -/
def load (w : World) (timeout : Binary64) (source : String) : Traced Fault Value := do
  Traced.lift (ofSourceText (← sourceText w timeout source))

/-- The description of a source, if its version is supported, with every reference expanded. -/
def loadInline (w : World) (timeout : Binary64) (source : String) : Traced Fault Value := do
  let description ← load w timeout source
  let _ ← Traced.lift (version description)
  inline description

end ApiContract.Description
