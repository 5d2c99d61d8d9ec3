import StateTransition.Curve.Pairing
import StateTransition.Hash.Blake2
import StateTransition.Hash.Ripemd160
import StateTransition.Modexp
import StateTransition.CommandLine.Run
import StateTransition.Main
import StateTransition.Proofs.Trie.History
import StateTransition.Proofs.Trie.Binding
import StateTransition.Proofs.World.Revert
import StateTransition.Proofs.Machine.Atomic
import StateTransition.Proofs.Machine.Termination
import StateTransition.Proofs.Chain.Gas
import StateTransition.Proofs.Chain.Conservation
import StateTransition.Proofs.Rlp.Canonical
import StateTransition.Proofs.Rlp.Position
import StateTransition.Proofs.Machine.Behaviour
import StateTransition.Proofs.Machine.Pinned
import StateTransition.Proofs.Chain.Replay
import StateTransition.Proofs.World.Balance
import StateTransition.Proofs.Machine.Solvent
import StateTransition.Proofs.Chain.Faultless
import StateTransition.Proofs.Rlp.Field
import StateTransition.Proofs.Block.Envelope
import StateTransition.Proofs.Block.Receipt
import StateTransition.Proofs.Block.Codec
import StateTransition.Proofs.Trie.Hashed
import StateTransition.Proofs.World.Commitment
import StateTransition.Proofs.Block.TransactionsRoot
import StateTransition.Proofs.Block.Signing
import StateTransition.Proofs.World.Unwritten
import StateTransition.Proofs.Machine.Static
import StateTransition.Proofs.Machine.Clearing
import StateTransition.Proofs.Chain.Clearing
import StateTransition.Proofs.Chain.BlockHash
import StateTransition.Proofs.Chain.Ommer
import StateTransition.Proofs.Chain.Failure
import StateTransition.Proofs.Chain.Deployment
import StateTransition.Proofs.Chain.Invariant
import StateTransition.Proofs.Chain.Issuance
import StateTransition.Proofs.Chain.Export
import StateTransition.Proofs.Fork.Schedule
import StateTransition.Proofs.Fork.Activation
import StateTransition.Proofs.Machine.Boundary
import StateTransition.Proofs.Machine.Refund
import StateTransition.Proofs.Machine.Memory
import StateTransition.Proofs.Chain.Receipts
import StateTransition.Proofs.World.Housing
import StateTransition.Proofs.Machine.Housing
import StateTransition.Proofs.Chain.Housing
import StateTransition.Proofs.Machine.Warmth
import StateTransition.Proofs.Machine.Surcharge
import StateTransition.Proofs.Chain.Difficulty
import StateTransition.Proofs.Chain.BaseFee
import StateTransition.Proofs.Machine.PowerPrice
import StateTransition.Proofs.Machine.Power
import StateTransition.Proofs.TwosComplement
import StateTransition.Proofs.Curve.Twin
import StateTransition.Proofs.Chain.Price
import StateTransition.Proofs.Block.Bloom
import StateTransition.Proofs.World.Transfer
import StateTransition.Proofs.Machine.CallGas
