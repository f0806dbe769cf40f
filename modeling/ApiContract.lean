import ApiContract.Binary64
import ApiContract.Binary64.Shortest
import ApiContract.Calendar
import ApiContract.Collection
import ApiContract.CommandLine.Arguments
import ApiContract.CommandLine.Build
import ApiContract.CommandLine.Command
import ApiContract.CommandLine.Configure
import ApiContract.CommandLine.Inspect
import ApiContract.CommandLine.Program
import ApiContract.CommandLine.Session
import ApiContract.Console
import ApiContract.Description.Inline
import ApiContract.Description.Source
import ApiContract.Description.Text
import ApiContract.Description.Version
import ApiContract.Fault
import ApiContract.Fault.Build
import ApiContract.Fault.Family
import ApiContract.Fault.Settings
import ApiContract.Fault.Source
import ApiContract.Host.Draft
import ApiContract.Host.FileSystem
import ApiContract.Host.Path
import ApiContract.Host.World
import ApiContract.Json.Fault
import ApiContract.Json.Reader
import ApiContract.Json.Writer
import ApiContract.Main
import ApiContract.Proofs.CommandLine.Calls
import ApiContract.Proofs.CommandLine.Cautious
import ApiContract.Proofs.CommandLine.Inspection
import ApiContract.Proofs.CommandLine.Output
import ApiContract.Proofs.CommandLine.Printing
import ApiContract.Proofs.CommandLine.Rows
import ApiContract.Proofs.CommandLine.Steps
import ApiContract.Proofs.ExitCodes
import ApiContract.Proofs.Failing
import ApiContract.Proofs.Host.Draft
import ApiContract.Proofs.Host.Files
import ApiContract.Proofs.Json.Laws
import ApiContract.Proofs.Json.Reading
import ApiContract.Proofs.Json.Source
import ApiContract.Proofs.Reference.Acyclic
import ApiContract.Proofs.Reference.Document
import ApiContract.Proofs.Reference.Failures
import ApiContract.Proofs.Reference.LeftOver
import ApiContract.Proofs.Reference.PlainPointer
import ApiContract.Proofs.Reference.Recursion
import ApiContract.Proofs.Reference.Termination
import ApiContract.Proofs.Reference.Unfolding
import ApiContract.Proofs.Schema.Acceptance
import ApiContract.Proofs.Schema.ComponentShape
import ApiContract.Proofs.Schema.ComponentTable
import ApiContract.Proofs.Schema.Construction
import ApiContract.Proofs.Schema.ContentBranch
import ApiContract.Proofs.Schema.DeclaredOperation
import ApiContract.Proofs.Schema.DeclaredResponse
import ApiContract.Proofs.Schema.Emission
import ApiContract.Proofs.Schema.FirstFailure
import ApiContract.Proofs.Schema.Frame
import ApiContract.Proofs.Schema.Inheritance
import ApiContract.Proofs.Schema.OperationBranches
import ApiContract.Proofs.Schema.Properties
import ApiContract.Proofs.Schema.Reporting
import ApiContract.Proofs.Schema.RequestAcceptance
import ApiContract.Proofs.Schema.RequestBranch
import ApiContract.Proofs.Schema.RequestParameters
import ApiContract.Proofs.Schema.ResponseAcceptance
import ApiContract.Proofs.Schema.ResponseBranch
import ApiContract.Proofs.Schema.RootConstruction
import ApiContract.Proofs.Schema.RootEmission
import ApiContract.Proofs.Schema.RootReporting
import ApiContract.Proofs.Schema.SelfContained
import ApiContract.Proofs.Schema.Stamping
import ApiContract.Proofs.Schema.Success
import ApiContract.Proofs.Schema.Unambiguous
import ApiContract.Proofs.Schema.Unplaced
import ApiContract.Proofs.Schema.WellFormed
import ApiContract.Proofs.Schema.WellShaped
import ApiContract.Proofs.Settings.Editing
import ApiContract.Proofs.Settings.Layers
import ApiContract.Proofs.Settings.Precedence
import ApiContract.Reference.Expand
import ApiContract.Reference.Pointer
import ApiContract.Schema.Component
import ApiContract.Schema.Declared
import ApiContract.Schema.Edit
import ApiContract.Schema.MediaType
import ApiContract.Schema.Node
import ApiContract.Schema.Operation
import ApiContract.Schema.Parameter
import ApiContract.Schema.PathItem
import ApiContract.Schema.Request
import ApiContract.Schema.Response
import ApiContract.Schema.Roots
import ApiContract.Settings
import ApiContract.Settings.Coercion
import ApiContract.Settings.Layers
import ApiContract.Settings.Store
import ApiContract.Text.Blank
import ApiContract.Text.Digit
import ApiContract.Text.Numeral
import ApiContract.Text.Printable
import ApiContract.Text.Quoted
import ApiContract.Text.Surrogate
import ApiContract.Text.Uppercase
import ApiContract.Traced
import ApiContract.Value
import ApiContract.Value.Access
import ApiContract.Value.Display
import ApiContract.Yaml.Cursor
import ApiContract.Yaml.Node
import ApiContract.Yaml.Reader
import ApiContract.Yaml.Scalar
import ApiContract.Yaml.Tag
import ApiContract.Yaml.Token
import ApiContract.Yaml.Token.Block
import ApiContract.Yaml.Token.Plain
import ApiContract.Yaml.Token.Property
import ApiContract.Yaml.Token.Quoted
import ApiContract.Yaml.Token.Stream
import ApiContract.Proofs.Binary64.Rounding
import ApiContract.Proofs.CommandLine.Verbosity
import ApiContract.Proofs.Description.Loading
import ApiContract.Proofs.Reference.Locations
import ApiContract.Proofs.Reference.Respelling
import ApiContract.Proofs.Reference.Ways
import ApiContract.Proofs.Binary64.Printing
import ApiContract.Proofs.Json.ReadBack
import ApiContract.Proofs.Settings.Storable
import ApiContract.Proofs.CommandLine.Absence
import ApiContract.Proofs.Reference.RootChain
import ApiContract.Proofs.Schema.Merging
import ApiContract.Proofs.Schema.StrictLookup
import ApiContract.Proofs.Schema.Repetition
import ApiContract.Proofs.Schema.GivenObject
import ApiContract.Proofs.Schema.Siblings
import ApiContract.Proofs.Schema.Marking
import ApiContract.Proofs.Value.Update
import ApiContract.Proofs.Reference.PointerText
