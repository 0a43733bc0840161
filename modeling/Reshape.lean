import Reshape.Access
import Reshape.Attribute.Annotations
import Reshape.Attribute.Basic
import Reshape.Attribute.Metadata
import Reshape.Batch.Path
import Reshape.Batch.Run
import Reshape.Batch.Tree
import Reshape.Bytes.BigEndian
import Reshape.Bytes.Cursor
import Reshape.ClassFile.Basic
import Reshape.ClassFile.Format
import Reshape.ClassFile.Member
import Reshape.ClassFile.Site
import Reshape.Code.Body
import Reshape.Code.ConstructorCall
import Reshape.Code.Fragment
import Reshape.Code.Insertion
import Reshape.Code.Instruction
import Reshape.Code.Listing
import Reshape.Code.Opcode
import Reshape.Code.StackDepth
import Reshape.Decimal.Layout
import Reshape.Decimal.Shortest
import Reshape.Descriptor.FieldType
import Reshape.Descriptor.MethodType
import Reshape.Error
import Reshape.Frame.Basic
import Reshape.Frame.State
import Reshape.Main
import Reshape.Part
import Reshape.Pool.Constant
import Reshape.Pool.Format
import Reshape.Pool.Intern
import Reshape.Proofs.Attribute.Annotations
import Reshape.Proofs.Attribute.Constants
import Reshape.Proofs.Attribute.Metadata
import Reshape.Proofs.Attribute.Moving
import Reshape.Proofs.Attribute.Named
import Reshape.Proofs.Attribute.Replacement
import Reshape.Proofs.Batch.Independence
import Reshape.Proofs.Batch.Outputs
import Reshape.Proofs.Batch.Sharing
import Reshape.Proofs.Batch.Verdicts
import Reshape.Proofs.Bytes.Found
import Reshape.Proofs.Bytes.Reading
import Reshape.Proofs.Bytes.Whole
import Reshape.Proofs.ClassFile.Canonical
import Reshape.Proofs.ClassFile.Delimited
import Reshape.Proofs.ClassFile.Lossless
import Reshape.Proofs.ClassFile.Stored
import Reshape.Proofs.Code.Abandoned
import Reshape.Proofs.Code.Decoding
import Reshape.Proofs.Code.Edit
import Reshape.Proofs.Code.Fragments
import Reshape.Proofs.Code.Frames
import Reshape.Proofs.Code.Path
import Reshape.Proofs.Code.Placement
import Reshape.Proofs.Code.Relocation
import Reshape.Proofs.Code.Sequential
import Reshape.Proofs.Code.StackDepth
import Reshape.Proofs.Code.StackLimit
import Reshape.Proofs.Code.Stored
import Reshape.Proofs.Code.Tables
import Reshape.Proofs.Code.Tiling
import Reshape.Proofs.Code.Trailing
import Reshape.Proofs.Descriptor.Grammar
import Reshape.Proofs.Descriptor.HostNames
import Reshape.Proofs.Descriptor.Parts
import Reshape.Proofs.Frame.Canonical
import Reshape.Proofs.Frame.Compression
import Reshape.Proofs.Frame.States
import Reshape.Proofs.Frame.Stored
import Reshape.Proofs.Host.Building
import Reshape.Proofs.Host.Fragments
import Reshape.Proofs.Host.Instructions
import Reshape.Proofs.Host.Machine
import Reshape.Proofs.Pool.Additions
import Reshape.Proofs.Pool.Found
import Reshape.Proofs.Pool.Growth
import Reshape.Proofs.Pool.Room
import Reshape.Proofs.Pool.Slots
import Reshape.Proofs.Pool.Stored
import Reshape.Proofs.Redefinition.AccessorNames
import Reshape.Proofs.Redefinition.AddedFields
import Reshape.Proofs.Redefinition.Allocation
import Reshape.Proofs.Redefinition.Block
import Reshape.Proofs.Redefinition.ConstructorCall
import Reshape.Proofs.Redefinition.ConstructorPaths
import Reshape.Proofs.Redefinition.Failure
import Reshape.Proofs.Redefinition.FieldTable
import Reshape.Proofs.Redefinition.FullPool
import Reshape.Proofs.Redefinition.GeneratedClasses
import Reshape.Proofs.Redefinition.Isolation
import Reshape.Proofs.Redefinition.Issuing
import Reshape.Proofs.Redefinition.LoadedAnnotations
import Reshape.Proofs.Redefinition.Matching
import Reshape.Proofs.Redefinition.Naming
import Reshape.Proofs.Redefinition.Partition
import Reshape.Proofs.Redefinition.Prologue
import Reshape.Proofs.Redefinition.Removal
import Reshape.Proofs.Redefinition.Replay
import Reshape.Proofs.Redefinition.Run
import Reshape.Proofs.Redefinition.Scopes
import Reshape.Proofs.Redefinition.Shape
import Reshape.Proofs.Redefinition.StorageField
import Reshape.Proofs.Redefinition.Untouched
import Reshape.Proofs.Redefinition.Views
import Reshape.Proofs.Redefinition.VisibleFields
import Reshape.Proofs.Registry.Commit
import Reshape.Proofs.Registry.Names
import Reshape.Proofs.Results
import Reshape.Proofs.Storage.Accessor
import Reshape.Proofs.Storage.Memory
import Reshape.Proofs.Text.Groups
import Reshape.Proofs.Text.ModifiedUtf8
import Reshape.Proofs.Text.Split
import Reshape.Proofs.Text.Units
import Reshape.Redefinition.Config
import Reshape.Redefinition.Error
import Reshape.Redefinition.Generated
import Reshape.Redefinition.Pass
import Reshape.Redefinition.Prologue
import Reshape.Redefinition.Request
import Reshape.Redefinition.Schema
import Reshape.Redefinition.Session
import Reshape.Registry.Context
import Reshape.Registry.Reflection
import Reshape.Registry.Store
import Reshape.Storage.Layout
import Reshape.Storage.Value
import Reshape.Text.ModifiedUtf8
import Reshape.Text.Numeral
import Reshape.Text.Printable
import Reshape.Text.Quoted
