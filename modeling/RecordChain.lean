import RecordChain.Block.Nonce
import RecordChain.Event.Bus
import RecordChain.Event.Log
import RecordChain.Session
import RecordChain.Proofs.Wire.Reading
import RecordChain.Proofs.Wire.Blocks
import RecordChain.Proofs.ForkTree.Growth
import RecordChain.Proofs.ForkTree.WellFormed
import RecordChain.Proofs.ForkTree.Longest
import RecordChain.Proofs.ForkTree.Built
import RecordChain.Proofs.ForkTree.Arena
import RecordChain.Proofs.ForkTree.Links
import RecordChain.Proofs.Ledger.Replay
import RecordChain.Proofs.Ledger.Effects
import RecordChain.Proofs.Ledger.Unpriced
import RecordChain.Proofs.Ledger.Failures
import RecordChain.Proofs.Ledger.FileHistory
import RecordChain.Proofs.Ledger.Confirmation
import RecordChain.Proofs.Ledger.Extension
import RecordChain.Proofs.Ledger.Standing
import RecordChain.Proofs.Ledger.Conservation
import RecordChain.Proofs.Ledger.Locality
import RecordChain.Proofs.Validator.Work
import RecordChain.Proofs.Validator.Judgement
import RecordChain.Proofs.Validator.Cache
import RecordChain.Proofs.Chain.Valid
import RecordChain.Proofs.Chain.Insertion
import RecordChain.Proofs.Chain.Agreement
import RecordChain.Proofs.Chain.HeadViews
import RecordChain.Proofs.Chain.HeadHistory
import RecordChain.Proofs.Chain.ArrivalOrder
import RecordChain.Proofs.Chain.Watchers
import RecordChain.Proofs.Adoption.Stepping
import RecordChain.Proofs.Mining.Selected
import RecordChain.Proofs.Adoption.Progress
import RecordChain.Proofs.Adoption.Outcome
import RecordChain.Proofs.Adoption.CatchUp
import RecordChain.Proofs.JobQueue
import RecordChain.Proofs.Mining.Superseded
import RecordChain.Proofs.Mining.Sifting
import RecordChain.Proofs.Mining.Repetition
import RecordChain.Proofs.Mining.Nonces
import RecordChain.Proofs.Adoption.Interference
import RecordChain.Proofs.Adoption.Crowd
import RecordChain.Proofs.Adoption.Gossip
import RecordChain.Proofs.Client.Slots
import RecordChain.Proofs.Client.Clients
import RecordChain.Proofs.Client.Appends
import RecordChain.Proofs.Client.Numbers
import RecordChain.Proofs.Client.Renumbering
import RecordChain.Proofs.Client.Creations
import RecordChain.Proofs.Client.Resubmission
import RecordChain.Proofs.Client.ReadBack
import RecordChain.Proofs.Worker.Threads
import RecordChain.Proofs.Worker.Workshop
import RecordChain.Proofs.Worker.Memo
import RecordChain.Proofs.Worker.Handover
import RecordChain.Proofs.Worker.Suspension
import RecordChain.Proofs.Session
import RecordChain.Proofs.Session.Turns
import RecordChain.Proofs.Cancellation
import RecordChain.Proofs.Cancellation.Inheritance
import RecordChain.Proofs.Event.Delivery
