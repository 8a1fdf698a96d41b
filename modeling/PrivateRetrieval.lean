import PrivateRetrieval.Main
import PrivateRetrieval.Client.Drive
import PrivateRetrieval.Prf.Literal
import PrivateRetrieval.Proofs.EndToEnd
import PrivateRetrieval.Proofs.Obliviousness
import PrivateRetrieval.Proofs.SingleUse
import PrivateRetrieval.Proofs.Candidates
import PrivateRetrieval.Proofs.Points
import PrivateRetrieval.Proofs.Representation
import PrivateRetrieval.Proofs.TraceTables
import PrivateRetrieval.Proofs.Privacy
import PrivateRetrieval.Proofs.Sampling
import PrivateRetrieval.Proofs.Delivery
import PrivateRetrieval.Proofs.Failures
import PrivateRetrieval.Proofs.Retrieval
import PrivateRetrieval.Proofs.Journal
import PrivateRetrieval.Proofs.Budget
import PrivateRetrieval.Proofs.WriteOnce
import PrivateRetrieval.Proofs.Conversation
import PrivateRetrieval.Proofs.Surfaces
import PrivateRetrieval.Proofs.Progress
import PrivateRetrieval.Proofs.Capacities
import PrivateRetrieval.Proofs.Checked
import PrivateRetrieval.Proofs.CheckedClient
import PrivateRetrieval.Proofs.Safety
import PrivateRetrieval.Proofs.Addresses
import PrivateRetrieval.Proofs.Hosting
import PrivateRetrieval.Proofs.AnyPeer
import PrivateRetrieval.Proofs.HonestPeer
import PrivateRetrieval.Proofs.Acceptance
import PrivateRetrieval.Proofs.FailedBuilds
import PrivateRetrieval.Proofs.Counts
import PrivateRetrieval.Proofs.Selection
import PrivateRetrieval.Proofs.Programming
import PrivateRetrieval.Proofs.Streaming
import PrivateRetrieval.Proofs.Handshaking
import PrivateRetrieval.Proofs.Requests
