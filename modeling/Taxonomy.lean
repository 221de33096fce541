import Taxonomy.Catalog
import Taxonomy.Catalog.Ast
import Taxonomy.Catalog.Basic
import Taxonomy.Catalog.Bytecode
import Taxonomy.Catalog.Ir
import Taxonomy.Catalog.Values
import Taxonomy.Document.Basic
import Taxonomy.Document.Fault
import Taxonomy.Document.Reader
import Taxonomy.Document.Record
import Taxonomy.Facade
import Taxonomy.Fault
import Taxonomy.Instruction
import Taxonomy.Json.Number
import Taxonomy.Json.Token
import Taxonomy.Json.Value
import Taxonomy.Member
import Taxonomy.Mode
import Taxonomy.Model
import Taxonomy.Naming
import Taxonomy.Outline
import Taxonomy.Palette
import Taxonomy.Proofs.Acceptance
import Taxonomy.Proofs.Allocation
import Taxonomy.Proofs.Allocator
import Taxonomy.Proofs.Compilation
import Taxonomy.Proofs.CycleSearch
import Taxonomy.Proofs.DeclarationOrder
import Taxonomy.Proofs.DerivedNames
import Taxonomy.Proofs.Descent
import Taxonomy.Proofs.DocumentForms
import Taxonomy.Proofs.DocumentText
import Taxonomy.Proofs.Facades
import Taxonomy.Proofs.Faults
import Taxonomy.Proofs.Growth
import Taxonomy.Proofs.IllegalWords
import Taxonomy.Proofs.JsonNumerals
import Taxonomy.Proofs.JsonReading
import Taxonomy.Proofs.JsonText
import Taxonomy.Proofs.Labels
import Taxonomy.Proofs.Lineage
import Taxonomy.Proofs.Linking
import Taxonomy.Proofs.Lookups
import Taxonomy.Proofs.Lowering
import Taxonomy.Proofs.MarkErasure
import Taxonomy.Proofs.ModelView
import Taxonomy.Proofs.NearestFacades
import Taxonomy.Proofs.NormalForms
import Taxonomy.Proofs.Numbering
import Taxonomy.Proofs.Ordering
import Taxonomy.Proofs.Outcome
import Taxonomy.Proofs.OutlineColours
import Taxonomy.Proofs.OutlineReading
import Taxonomy.Proofs.OutlineText
import Taxonomy.Proofs.Outsiders
import Taxonomy.Proofs.PathOrder
import Taxonomy.Proofs.PostOrder
import Taxonomy.Proofs.RangeCheck
import Taxonomy.Proofs.Registration
import Taxonomy.Proofs.RegistryHistory
import Taxonomy.Proofs.Renumbering
import Taxonomy.Proofs.Repetition
import Taxonomy.Proofs.Resolution
import Taxonomy.Proofs.SlotCollection
import Taxonomy.Proofs.Slots
import Taxonomy.Proofs.SnakeCase
import Taxonomy.Proofs.SubtreeNumbers
import Taxonomy.Proofs.SubtypeOrder
import Taxonomy.Proofs.SymbolHistory
import Taxonomy.Proofs.TagViews
import Taxonomy.Proofs.Tiling
import Taxonomy.Proofs.Traversal
import Taxonomy.Proofs.TreeMap
import Taxonomy.Proofs.UnionAcceptance
import Taxonomy.Proofs.UnionDefects
import Taxonomy.Proofs.UnionHistory
import Taxonomy.Proofs.UnknownKeys
import Taxonomy.Proofs.VariantNumbers
import Taxonomy.Proofs.Views
import Taxonomy.Proofs.WholeDocuments
import Taxonomy.Registry
import Taxonomy.Registry.Lineage
import Taxonomy.Repetition
import Taxonomy.Schema
import Taxonomy.Settings
import Taxonomy.Slot
import Taxonomy.Symbols
import Taxonomy.TagTable
import Taxonomy.Text.Quoted
import Taxonomy.Text.Unprinted
import Taxonomy.Tree.Basic
import Taxonomy.Tree.Growth
import Taxonomy.TypeDef
import Taxonomy.Union
import Taxonomy.UnionSet
