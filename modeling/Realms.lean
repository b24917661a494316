import Realms.Script.Run
import Realms.Memory.Run
import Realms.Proofs.Event
import Realms.Proofs.Store.Change
import Realms.Proofs.Course
import Realms.Proofs.Enclosure
import Realms.Proofs.Nested
import Realms.Proofs.Discipline
import Realms.Proofs.Depth
import Realms.Proofs.Probe
import Realms.Proofs.Restoration
import Realms.Proofs.Tidy
import Realms.Proofs.Shortcut
import Realms.Proofs.Account
import Realms.Proofs.Attainable
import Realms.Proofs.Overflow
import Realms.Proofs.Chain
import Realms.Proofs.Recursion
import Realms.Proofs.Aftermath
import Realms.Proofs.Stage
import Realms.Proofs.InProgress
import Realms.Proofs.Calm
import Realms.Proofs.Unwinding
import Realms.Proofs.Making
import Realms.Proofs.Registration
import Realms.Proofs.Refusal
import Realms.Proofs.Apart
import Realms.Proofs.Raised
import Realms.Proofs.Limits
import Realms.Proofs.Fuel
import Realms.Proofs.Termination
import Realms.Proofs.Store.Heap
import Realms.Proofs.Writes
import Realms.Proofs.Isolation
import Realms.Proofs.Callability
import Realms.Proofs.Number.Text
import Realms.Proofs.Number.Whole
import Realms.Proofs.Number.Conversion
import Realms.Proofs.Assignment
import Realms.Proofs.Classification
import Realms.Proofs.Absorption
import Realms.Proofs.Record
import Realms.Proofs.Memory.Exclusion
import Realms.Proofs.Borrow.Conflict
