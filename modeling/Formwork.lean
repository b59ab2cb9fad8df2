import Formwork.Component.Basic
import Formwork.Component.Layout
import Formwork.Component.Setup
import Formwork.Container.Declare
import Formwork.Container.Describe
import Formwork.Container.Query
import Formwork.Container.Setup
import Formwork.Decimal.Reading
import Formwork.Expression.Builder
import Formwork.Expression.Setup
import Formwork.Json.Reader
import Formwork.Json.Writer
import Formwork.Types.Model
import Formwork.Types.Schema
import Formwork.Types.Tagged
import Formwork.Proofs.Expression.Deciding
import Formwork.Proofs.Expression.Reading
import Formwork.Proofs.Heap.Actions
import Formwork.Proofs.Run
import Formwork.Proofs.Heap.Reachable
import Formwork.Proofs.Heap.Growth
import Formwork.Proofs.Heap.Following
import Formwork.Proofs.Expression.Independence
import Formwork.Proofs.Types.Conforming
import Formwork.Proofs.Heap.Uses
import Formwork.Proofs.Heap.Typed
import Formwork.Proofs.Component.Binding
import Formwork.Proofs.Container.Models
import Formwork.Proofs.Container.Assembling
import Formwork.Proofs.Container.Binding
import Formwork.Proofs.Expression.Effect
import Formwork.Proofs.Container.Stages
import Formwork.Proofs.Heap.Accruing
import Formwork.Proofs.Container.Fields
import Formwork.Proofs.Container.Links
import Formwork.Proofs.Container.Strictness
import Formwork.Proofs.Component.Settling
import Formwork.Proofs.Container.Isolation
import Formwork.Proofs.Container.Readiness
import Formwork.Proofs.Container.Choices
import Formwork.Proofs.Validation.Counting
import Formwork.Proofs.Value.Equality
import Formwork.Proofs.Container.Items
import Formwork.Proofs.Container.Registry
import Formwork.Proofs.Container.Enforcement
import Formwork.Proofs.Container.Combinations
import Formwork.Proofs.Heap.Indexed
import Formwork.Proofs.Types.Rereading
import Formwork.Proofs.Types.References
import Formwork.Proofs.Types.Shapes
import Formwork.Proofs.Types.Interchange
import Formwork.Proofs.Container.Owners
import Formwork.Proofs.Container.Declaring
import Formwork.Proofs.Container.Naming
import Formwork.Proofs.Container.Lifecycle
import Formwork.Proofs.Orderly
import Formwork.Proofs.Heap.Open
import Formwork.Proofs.Expression.Orderly
import Formwork.Proofs.Component.Orderly
import Formwork.Proofs.Container.Orderly
import Formwork.Proofs.Types.Meaning
import Formwork.Proofs.Types.Sections
import Formwork.Proofs.Heap.Refusals
import Formwork.Proofs.Expression.Retrieval
import Formwork.Proofs.Expression.Retrying
import Formwork.Proofs.Types.Optionality
import Formwork.Proofs.Expression.Arithmetic
import Formwork.Proofs.Types.Grammar
import Formwork.Proofs.Container.Kinds
import Formwork.Proofs.Container.Describing
import Formwork.Proofs.Hint
import Formwork.Proofs.Value.Equivalence
