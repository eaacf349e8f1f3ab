import PushValue.Draft
import PushValue.Draft.Builder
import PushValue.Environment
import PushValue.Fault
import PushValue.Fraction.Basic
import PushValue.Fraction.Digits
import PushValue.Fraction.Text
import PushValue.Machine.Frame
import PushValue.Machine.Head
import PushValue.Machine.Match
import PushValue.Machine.Resolve
import PushValue.Machine.Running
import PushValue.Machine.Step
import PushValue.Normalize.Hoist
import PushValue.Normalize.Names
import PushValue.Object.Basic
import PushValue.Object.Key
import PushValue.Object.Kind
import PushValue.Object.Operand
import PushValue.Object.Render
import PushValue.Process.Stage
import PushValue.Process.Visit
import PushValue.Proofs.Abreast
import PushValue.Proofs.Bisimulation
import PushValue.Proofs.Contract
import PushValue.Proofs.Cost
import PushValue.Proofs.Effect
import PushValue.Proofs.Ending
import PushValue.Proofs.Erasure
import PushValue.Proofs.Failing
import PushValue.Proofs.Flattening
import PushValue.Proofs.Footprint
import PushValue.Proofs.Forgetting
import PushValue.Proofs.Ground.Resolve
import PushValue.Proofs.Ground.Run
import PushValue.Proofs.Ground.Step
import PushValue.Proofs.Growing
import PushValue.Proofs.History
import PushValue.Proofs.Isolation
import PushValue.Proofs.Jamming
import PushValue.Proofs.Lasting
import PushValue.Proofs.Ledger
import PushValue.Proofs.Lifecycle
import PushValue.Proofs.Linking
import PushValue.Proofs.Listing
import PushValue.Proofs.Locality
import PushValue.Proofs.Motion
import PushValue.Proofs.Namespace
import PushValue.Proofs.Nesting
import PushValue.Proofs.Normalize.BoxNames
import PushValue.Proofs.Normalize.Collecting
import PushValue.Proofs.Normalize.Counting
import PushValue.Proofs.Normalize.Hoisting
import PushValue.Proofs.Normalize.Hygiene
import PushValue.Proofs.Normalize.Inline
import PushValue.Proofs.Normalize.NormalForm
import PushValue.Proofs.Normalize.Shelter
import PushValue.Proofs.Normalize.Supply
import PushValue.Proofs.Numerals
import PushValue.Proofs.Operands
import PushValue.Proofs.Order
import PushValue.Proofs.Provenance
import PushValue.Proofs.Reference
import PushValue.Proofs.Reflexivity
import PushValue.Proofs.Renaming.Bases
import PushValue.Proofs.Renaming.Basic
import PushValue.Proofs.Renaming.Resolve
import PushValue.Proofs.Renaming.Run
import PushValue.Proofs.Renaming.Step
import PushValue.Proofs.Replay
import PushValue.Proofs.Resting
import PushValue.Proofs.Round
import PushValue.Proofs.Scope.Basic
import PushValue.Proofs.Scope.Resolve
import PushValue.Proofs.Scope.Run
import PushValue.Proofs.Scope.Step
import PushValue.Proofs.Screen.Basic
import PushValue.Proofs.Screen.Normalize
import PushValue.Proofs.Screen.Resolve
import PushValue.Proofs.Screen.State
import PushValue.Proofs.Screen.Step
import PushValue.Proofs.Sequencing
import PushValue.Proofs.Settling
import PushValue.Proofs.SortKey
import PushValue.Proofs.Spawn
import PushValue.Proofs.Tables
import PushValue.Proofs.Termination
import PushValue.Proofs.Testimony
import PushValue.Proofs.Turn
import PushValue.Proofs.Waiting
import PushValue.Settings
import PushValue.Symbol.Basic
import PushValue.Symbol.Order
import PushValue.Symbol.Sorting
import PushValue.Table.Basic
import PushValue.Table.Lemmas
import PushValue.Term.Basic
import PushValue.Term.Boxes
import PushValue.Term.Operand
import PushValue.Term.Reading
import PushValue.Text.Blank
import PushValue.Text.Digit
import PushValue.Text.Integer
import PushValue.Text.Layout
import PushValue.Text.Printable
import PushValue.Text.Quoted
import PushValue.Text.Unpaired
import PushValue.Trace
import PushValue.World.Basic
import PushValue.World.Round
import PushValue.World.Run
