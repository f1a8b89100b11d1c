import FabricMemory.Main
import FabricMemory.Session
import FabricMemory.Proofs.Accounting
import FabricMemory.Proofs.Conversion
import FabricMemory.Proofs.Directory
import FabricMemory.Proofs.Discipline
import FabricMemory.Proofs.Exchange
import FabricMemory.Proofs.Frame
import FabricMemory.Proofs.Listing
import FabricMemory.Proofs.Opening
import FabricMemory.Proofs.Payload
import FabricMemory.Proofs.Presentation
import FabricMemory.Proofs.Reach
import FabricMemory.Proofs.Refusal
import FabricMemory.Proofs.Reserved
import FabricMemory.Proofs.RoundTrip
import FabricMemory.Proofs.Verdict
import FabricMemory.Proofs.Vetting
import FabricMemory.Proofs.Literal
import FabricMemory.Proofs.Eid
import FabricMemory.Proofs.Descent
import FabricMemory.Proofs.Location
import FabricMemory.Proofs.Parity
import FabricMemory.Proofs.Withdrawal
import FabricMemory.Proofs.Argument
import FabricMemory.Proofs.StoredFlags
import FabricMemory.Proofs.Output
import FabricMemory.Proofs.Accumulation
