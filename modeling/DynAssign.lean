import DynAssign.Cache
import DynAssign.Lookup.Document
import DynAssign.Script
import DynAssign.Value.Typing
import DynAssign.Value.View
import DynAssign.Proofs.Storage
import DynAssign.Proofs.Fields
import DynAssign.Proofs.Built
import DynAssign.Proofs.Assign
import DynAssign.Proofs.Effect
import DynAssign.Proofs.Repeat
import DynAssign.Proofs.Order
import DynAssign.Proofs.Rendering
import DynAssign.Proofs.RoundTrip
import DynAssign.Proofs.Layers
import DynAssign.Proofs.Elements
import DynAssign.Proofs.Leaves
import DynAssign.Proofs.Untouched
import DynAssign.Proofs.Paths
import DynAssign.Proofs.Typed
import DynAssign.Proofs.Described
import DynAssign.Proofs.Faults
import DynAssign.Proofs.Requests
import DynAssign.Proofs.Arrays
import DynAssign.Proofs.Interchange
import DynAssign.Proofs.Allocation
import DynAssign.Proofs.Looking
import DynAssign.Proofs.Copies
import DynAssign.Proofs.Several
import DynAssign.Proofs.Navigation
import DynAssign.Proofs.Routes
import DynAssign.Proofs.Visits
import DynAssign.Proofs.Refusal
import DynAssign.Proofs.Integers
import DynAssign.Proofs.IntegerText
import DynAssign.Proofs.Numerals
import DynAssign.Proofs.Negatives
import DynAssign.Proofs.Descriptors
import DynAssign.Proofs.Stable
import DynAssign.Proofs.Resolution
