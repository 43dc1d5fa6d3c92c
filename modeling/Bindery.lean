import Bindery.Code.Constant
import Bindery.Code.Declaration
import Bindery.Code.File
import Bindery.Code.Identifier
import Bindery.Code.Path
import Bindery.Command.Arguments
import Bindery.Command.Conversion
import Bindery.Command.Host
import Bindery.Command.Run
import Bindery.Command.Workspace
import Bindery.Decimal.Double
import Bindery.Decimal.Numeral
import Bindery.Decimal.Shortest
import Bindery.Decimal.Written
import Bindery.Error
import Bindery.FieldType.Basic
import Bindery.FieldType.Blittable
import Bindery.FieldType.Code
import Bindery.FieldType.Resolution
import Bindery.FieldType.Signature
import Bindery.Guid
import Bindery.Json
import Bindery.Main
import Bindery.Metadata.Definition
import Bindery.Metadata.Reading
import Bindery.Metadata.Registry
import Bindery.Metadata.Shown
import Bindery.Model.Basic
import Bindery.Model.Building
import Bindery.Model.Declarations
import Bindery.Model.Document
import Bindery.Model.Fields
import Bindery.Model.Listing
import Bindery.Model.Order
import Bindery.Primitive
import Bindery.Source.Fault
import Bindery.Source.Outline
import Bindery.Source.Parser
import Bindery.Source.Terminal
import Bindery.Source.Tree
import Bindery.Text.Blank
import Bindery.Text.Lines
import Bindery.Text.Literal
import Bindery.Text.Numeral
import Bindery.Text.Printable
import Bindery.Text.Quoted
import Bindery.Text.Snake
import Bindery.Traced
import Bindery.TypeName
import Bindery.Value
import Bindery.Proofs.Model.Order
import Bindery.Proofs.FieldType.Resolution
import Bindery.Proofs.Model.Building
import Bindery.Proofs.Command.Failure
import Bindery.Proofs.FieldType.Blittable
import Bindery.Proofs.Model.Containment
import Bindery.Proofs.Model.Declarations
import Bindery.Proofs.Model.Derived
import Bindery.Proofs.Model.Cycles
import Bindery.Proofs.Model.Blocks
import Bindery.Proofs.Model.Naming
import Bindery.Proofs.Source.Pattern
import Bindery.Proofs.Source.Grammar
import Bindery.Proofs.Source.Layout
import Bindery.Proofs.Source.Reading
import Bindery.Proofs.Source.Exact
import Bindery.Proofs.Code.File
import Bindery.Proofs.Code.Identifier
import Bindery.Proofs.Code.Path
import Bindery.Proofs.Code.ModuleTree
import Bindery.Proofs.Metadata.Declared
import Bindery.Proofs.Model.Fields
import Bindery.Proofs.Code.TypeNames
import Bindery.Proofs.Model.Signature
import Bindery.Proofs.Model.Repointed
import Bindery.Proofs.Model.Rearranged
import Bindery.Proofs.Command.Reported
import Bindery.Proofs.FieldType.ByValue
import Bindery.Proofs.Metadata.Contents
import Bindery.Proofs.Code.Literals
import Bindery.Proofs.Code.References
import Bindery.Proofs.Model.FieldNames
import Bindery.Proofs.Model.Boundary
import Bindery.Proofs.FieldType.Separate
import Bindery.Proofs.Model.Copies
import Bindery.Proofs.Text.Numeral
import Bindery.Proofs.Guid.Components
import Bindery.Proofs.Guid.Written
import Bindery.Proofs.Model.Passes
import Bindery.Proofs.FieldType.Supported
import Bindery.Proofs.Source.Strings
import Bindery.Proofs.Source.Spelling
import Bindery.Proofs.Metadata.Printed
import Bindery.Proofs.Model.Stable
import Bindery.Proofs.Model.ConstantNames
import Bindery.Proofs.Model.Comparisons
import Bindery.Proofs.Metadata.Words
import Bindery.Proofs.Text.Pieces
import Bindery.Proofs.Code.Readback
import Bindery.Proofs.Model.Legible
import Bindery.Proofs.Model.Fieldwise
import Bindery.Proofs.Model.Collected
import Bindery.Proofs.Code.Snake
import Bindery.Proofs.Metadata.Spaced
