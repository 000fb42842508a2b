import Multimap.Edit
import Multimap.Store.Lemmas
import Multimap.Workspace.Execution
import Multimap.Proofs.Independence
import Multimap.Proofs.KeyHistory
import Multimap.Proofs.Json.Text
import Multimap.Proofs.Json.Decoding
import Multimap.Proofs.Json.Values
import Multimap.Proofs.Json.Acceptance
import Multimap.Proofs.Json.RoundTrip
import Multimap.Proofs.Interference
import Multimap.Proofs.Json.Guarantees
import Multimap.Proofs.Json.Locality
import Multimap.Proofs.Json.Numerals
import Multimap.Proofs.Json.Legible
import Multimap.Proofs.Json.Stopping
import Multimap.Proofs.Json.Interruption
import Multimap.Proofs.Equality
import Multimap.Proofs.Requests
import Multimap.Proofs.Absences
import Multimap.Proofs.Markers
import Multimap.Proofs.Reachability
import Multimap.Proofs.UpToOrder
import Multimap.Proofs.UpToOrderLaws
import Multimap.Proofs.PlainText
import Multimap.Proofs.SortedMaps
import Multimap.Proofs.Erasure
import Multimap.Proofs.Congruence
import Multimap.Proofs.KeyOrder
import Multimap.Proofs.Bulk
import Multimap.Proofs.Additions
import Multimap.Proofs.Replacement
import Multimap.Proofs.Collecting
import Multimap.Proofs.Editing
import Multimap.Proofs.Assignment
import Multimap.Proofs.Growth
import Multimap.Proofs.Offering
import Multimap.Proofs.Json.Doubles
