import ErgoNode.Proof.History.Index
import ErgoNode.Proof.History.Best
import ErgoNode.Proof.Manager.Atomic
import ErgoNode.Proof.Manager.Runs
import ErgoNode.Node.Validation
import ErgoNode.Proof.Validation.Together
import ErgoNode.Proof.Validation.Checkpoint
import ErgoNode.Proof.Validation.Commitment
import ErgoNode.Lib.Ledger
import ErgoNode.Proof.Manager.Selection
import ErgoNode.Proof.Manager.Together
import ErgoNode.Proof.Manager.Restart
import ErgoNode.Proof.History.Singly
import ErgoNode.Proof.Manager.Headers
import ErgoNode.Proof.Sync.Lost
import ErgoNode.Proof.Utxo.Indexes
import ErgoNode.Proof.Sync.Checked
import ErgoNode.Lib.Propagation
import ErgoNode.Mempool.Pool
import ErgoNode.Proof.Mempool.Linked
import ErgoNode.Proof.Mempool.Family
import ErgoNode.Proof.Mempool.Consistent
import ErgoNode.Proof.Mempool.Weights
import ErgoNode.Proof.Mempool.Order
import ErgoNode.Proof.Mempool.Confirmed
import ErgoNode.Lib.Vlq
import ErgoNode.Lib.Reader
import ErgoNode.Lib.Utf8
import ErgoNode.Network.Message
import ErgoNode.Proof.Network.Safety
import ErgoNode.Proof.Network.RoundTrip
import ErgoNode.Network.Handshake
import ErgoNode.Proof.Network.Framing
import ErgoNode.Proof.Network.Handshakes
import ErgoNode.Node.AddTransaction
import ErgoNode.Proof.Validation.Submitted
import ErgoNode.Proof.Mempool.Identity
import ErgoNode.Node.Epochs
import ErgoNode.Proof.Manager.Extensions
import ErgoNode.Proof.Utxo.Crash
import ErgoNode.Proof.Manager.Crash
import ErgoNode.State.Authenticated
import ErgoNode.Proof.Utxo.Root
import ErgoNode.Proof.Manager.EnforcedRoot
import ErgoNode.Proof.Manager.Recovery
import ErgoNode.Proof.Validation.LastHeaders
import ErgoNode.Proof.Manager.Sections
import ErgoNode.Proof.Manager.Replay
import ErgoNode.Proof.Manager.Deliveries
import ErgoNode.Proof.Manager.Grouping
import ErgoNode.State.Snapshots
import ErgoNode.Sync.Synchronizer
import ErgoNode.Proof.Snapshots.Plan
import ErgoNode.Proof.Snapshots.Completion
import ErgoNode.Proof.Snapshots.Quorum
import ErgoNode.Proof.Sync.Dispatch
import ErgoNode.Proof.Sync.Exchange
import ErgoNode.Proof.Sync.Downloads
import ErgoNode.Proof.Sync.Tracking
import ErgoNode.Lib.Effect
import ErgoNode.Proof.Sync.Journal
import ErgoNode.Proof.Sync.Release
import ErgoNode.Proof.Sync.Collected
import ErgoNode.Sync.HeaderInv
import ErgoNode.Proof.Sync.Refused
import ErgoNode.Proof.Sync.Announced
import ErgoNode.Proof.Nipopow.Quorum
import ErgoNode.Proof.Nipopow.Interlinks
import ErgoNode.Proof.Mining.Nonces
import ErgoNode.Proof.Mining.Candidates
import ErgoNode.Proof.Wallet.Addresses
import ErgoNode.Proof.Indexer.Unspent
import ErgoNode.Proof.Indexer.Balances
import ErgoNode.Proof.Indexer.Flushes
import ErgoNode.Proof.Validation.Conservation
import ErgoNode.Proof.Manager.Range
import ErgoNode.Proof.Network.Declined
import ErgoNode.Proof.Nipopow.Branching
import ErgoNode.Proof.Validation.Costs
import ErgoNode.Proof.Network.Bans
import ErgoNode.Proof.Network.Connections
import ErgoNode.Proof.Wallet.Balance
import ErgoNode.Wallet.Wallet
import ErgoNode.Proof.Wallet.Initialized
import ErgoNode.Proof.Difficulty.Regression
import ErgoNode.Proof.History.Heavier
import ErgoNode.Proof.History.Locator
import ErgoNode.Proof.Manager.PrunedHistory
import ErgoNode.Proof.Snapshots.Listed
import ErgoNode.Proof.Reemission.Issued
import ErgoNode.Proof.Nipopow.Levels
import ErgoNode.Proof.Nipopow.Scores
import ErgoNode.Proof.Nipopow.Packing
import ErgoNode.Proof.Validation.Parsing
import ErgoNode.Proof.Utxo.UndoBytes
import ErgoNode.Sync.Heights
import ErgoNode.Proof.Sync.Heights
import ErgoNode.Proof.Sync.Queued
import ErgoNode.Proof.Mempool.Restored
import ErgoNode.Proof.Mempool.Expiry
import ErgoNode.Proof.Mempool.FeePerFactor
import ErgoNode.Proof.Network.Numbers
import ErgoNode.Proof.Indexer.Safety
import ErgoNode.Proof.Scan.Registrations
import ErgoNode.Proof.Scan.Tracking
import ErgoNode.Proof.Nipopow.Honest
import ErgoNode.Proof.Mining.Calls
import ErgoNode.Proof.Reemission.Pot
import ErgoNode.Lib.Roster
import ErgoNode.Network.Service
import ErgoNode.Node.Router
import ErgoNode.Proof.Network.Listed
