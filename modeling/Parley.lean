import Parley.Bytes
import Parley.Error
import Parley.Frame
import Parley.Sequence
import Parley.Crypto.Aead
import Parley.Crypto.Hkdf
import Parley.Crypto.X25519
import Parley.Channel.Nonce
import Parley.Channel.Key
import Parley.Sim.Endpoint
import Parley.Server.Connection
import Parley.Client.Basic
import Parley.Client.Script
import Parley.Sim.Signals
import Parley.Sim.Tracking
import Parley.Sim.Admitting
import Parley.Engine.Pool
import Parley.Deadline
import Parley.Config.Schema
import Parley.Sim.Station
import Parley.Engine.Step
import Parley.Sim.Entropy
import Parley.Channel.Sealer
import Parley.Channel.Opener
import Parley.Channel.Exchange
import Parley.Server.AcceptError
import Parley.Sim.Network.Actions
import Parley.CommandLine
import Parley.Config.Loading
import Parley.Main
import Parley.Proofs.Channel.Wire
import Parley.Proofs.Channel.Sealing
import Parley.Proofs.Channel.Opening
import Parley.Proofs.Channel.RoundTrip
import Parley.Proofs.Engine.History
import Parley.Proofs.Engine.Ledger
import Parley.Proofs.Engine.Sending
import Parley.Proofs.Sequence
import Parley.Proofs.Engine.Dealings
import Parley.Proofs.Engine.Delivery
import Parley.Proofs.Engine.Pair
import Parley.Proofs.Engine.Correlation
import Parley.Proofs.Engine.Requests
import Parley.Proofs.Channel.Nonces
import Parley.Proofs.Engine.Loops
import Parley.Proofs.Engine.Quiescence
import Parley.Proofs.Engine.Winding
import Parley.Proofs.Engine.Dispatch
import Parley.Proofs.Slots
import Parley.Proofs.Shutdown
import Parley.Proofs.Engine.Traffic
import Parley.Proofs.Engine.Timing
import Parley.Proofs.Client.Lossless
import Parley.Proofs.Engine.Service
import Parley.Proofs.Channel.Agreement
import Parley.Proofs.Server.Isolation
import Parley.Proofs.Engine.Batches
import Parley.Proofs.Channel.Writing
import Parley.Proofs.Channel.Outcome
import Parley.Proofs.Admission.Law
import Parley.Proofs.Engine.Refusal
import Parley.Proofs.Engine.Reporting
import Parley.Proofs.Channel.Handshaking
import Parley.Proofs.Engine.Numbering
import Parley.Proofs.Limits
import Parley.Proofs.Engine.Fleet
import Parley.Proofs.Utf8
import Parley.Proofs.Engine.Answering
import Parley.Proofs.Engine.Asking
import Parley.Proofs.Network.Beside
import Parley.Proofs.Network.Calling
import Parley.Proofs.Network.Dialing
import Parley.Proofs.Network.Echoing
import Parley.Proofs.Validation
import Parley.Proofs.Accounting
import Parley.Proofs.Tracking
import Parley.Proofs.Signals
