import HostObjects.Class
import HostObjects.Diagnostic
import HostObjects.Fault
import HostObjects.Group.Basic
import HostObjects.Group.RunLoop
import HostObjects.Handle
import HostObjects.Heap.Allocate
import HostObjects.Heap.Basic
import HostObjects.Heap.ClassPrototype
import HostObjects.Heap.Collect
import HostObjects.Heap.Mark
import HostObjects.Heap.Object
import HostObjects.Heap.OwnProperty
import HostObjects.Heap.Prototype
import HostObjects.Heap.Roots
import HostObjects.Number.Double
import HostObjects.Number.Literal
import HostObjects.Number.Numeral
import HostObjects.Number.Rounding
import HostObjects.Number.Shortest
import HostObjects.Property
import HostObjects.Script.Answer
import HostObjects.Script.Callback
import HostObjects.Script.GeneralPlay
import HostObjects.Script.HeapPlay
import HostObjects.Script.Run
import HostObjects.Script.Step
import HostObjects.Script.ViewPlay
import HostObjects.Script.World
import HostObjects.Text
import HostObjects.Text.Blank
import HostObjects.Text.Hash
import HostObjects.Text.Index
import HostObjects.Text.Quoted
import HostObjects.Text.Unprintable
import HostObjects.Value
import HostObjects.View.Assign
import HostObjects.View.Call
import HostObjects.View.Convert
import HostObjects.View.Create
import HostObjects.View.Enumerate
import HostObjects.View.Lookup
import HostObjects.View.Session
import HostObjects.View.Walk
import HostObjects.Proofs.Text.Characters
import HostObjects.Proofs.Text.Index
import HostObjects.Proofs.Number.Rounding
import HostObjects.Proofs.Number.Shortest
import HostObjects.Proofs.Number.Literal
import HostObjects.Proofs.Number.Numeral
import HostObjects.Proofs.Number.Nearest
import HostObjects.Proofs.Number.Radix
import HostObjects.Proofs.Number.Grammar
import HostObjects.Proofs.Number.Acceptance
import HostObjects.Proofs.Number.ShortestDecimal
import HostObjects.Proofs.Number.Layout
import HostObjects.Proofs.Heap.Lookup
import HostObjects.Proofs.Heap.Liveness
import HostObjects.Proofs.Effect
import HostObjects.Proofs.Heap.Collection
import HostObjects.Proofs.Heap.Lifetime
import HostObjects.Proofs.Heap.LostValue
import HostObjects.Proofs.View.Callback
import HostObjects.Proofs.View.Invocation
import HostObjects.Proofs.View.Operand
import HostObjects.Proofs.View.Keyed
import HostObjects.Proofs.View.Balance
import HostObjects.Proofs.Script.AtHand
import HostObjects.Proofs.Script.Books
import HostObjects.Proofs.Script.Steps
import HostObjects.Proofs.Script.Turns
import HostObjects.Proofs.Script.GeneralSteps
import HostObjects.Proofs.Script.Nesting
import HostObjects.Proofs.Script.Rest
import HostObjects.Proofs.Heap.Census
import HostObjects.Proofs.View.Diary
import HostObjects.Proofs.View.Lifecycle
import HostObjects.Proofs.Heap.RootTable
import HostObjects.Proofs.Group.Owner
import HostObjects.Proofs.Group.Ownership
import HostObjects.Proofs.Heap.Counts
import HostObjects.Proofs.Heap.PrototypeChain
import HostObjects.Proofs.Script.Owners
import HostObjects.Proofs.Heap.Failure
import HostObjects.Proofs.Heap.Footprint
import HostObjects.Proofs.Script.RunLoop
import HostObjects.Proofs.Heap.ClassRelease
import HostObjects.Proofs.View.ClassPrototype
import HostObjects.Proofs.View.Instance
import HostObjects.Proofs.View.Enumerate
import HostObjects.Proofs.View.FirstRead
import HostObjects.Proofs.View.Override
import HostObjects.Proofs.View.Existence
import HostObjects.Proofs.View.Agreement
import HostObjects.Proofs.View.Rejection
import HostObjects.Proofs.Heap.Write
import HostObjects.Proofs.View.Search
import HostObjects.Proofs.View.Write
import HostObjects.Proofs.View.Delete
import HostObjects.Proofs.View.ChainLength
import HostObjects.Proofs.View.Sealed
import HostObjects.Proofs.View.OwnFunction
import HostObjects.Proofs.Heap.PropertyMap
import HostObjects.Proofs.View.Journey
import HostObjects.Proofs.View.Creation
import HostObjects.Proofs.View.IndexKey
