import CredaCash.Rounding
import CredaCash.UniFloat
import CredaCash.UniFloat.Midpoint
import CredaCash.UniFloat.Ops
import CredaCash.UniFloat.Bounds
import CredaCash.Xreq
import CredaCash.Exchange.CheckMatch
import CredaCash.Exchange.RateGuarantee
import CredaCash.Selection
import CredaCash.Exchange.BestMatch
import CredaCash.BoundedReader
import CredaCash.Wire.Transaction
import CredaCash.Wire.Request
import CredaCash.Wire.Bounds
import CredaCash.Chain.Persistent
import CredaCash.Chain.TxValidate
import CredaCash.Chain.BlockValidate
import CredaCash.Chain.BlockTime
import CredaCash.Chain.TxCache
import CredaCash.Rotation
import CredaCash.Chain.SigOrder
import CredaCash.Chain.Confirmations
import CredaCash.MerkleTree
import CredaCash.Chain.CommitTree
import CredaCash.Settlement.Mining
import CredaCash.Settlement.SettleMatch
import CredaCash.Chain.NodeRun
import CredaCash.Foreign.Query
import CredaCash.Foreign.Payments
import CredaCash.Exchange.Table
import CredaCash.Exchange.Matching
import CredaCash.Exchange.Synchronize
import CredaCash.Exchange.Run
import CredaCash.Exchange.RoundInvariant
import CredaCash.Exchange.RoundSteps
import CredaCash.Machine
import CredaCash.Node.ProcessQueue
import CredaCash.Node.BlockTxCounter
import CredaCash.Node.HeldBlocks
import CredaCash.Node.TransactConnection
import CredaCash.Node.RelayObjs
import CredaCash.ByteFormat
import CredaCash.Wire.TxToWire
import CredaCash.Wire.RoundTrip
import CredaCash.Chain.BlockScan
import CredaCash.Wire.BlockForm
import CredaCash.Chain.BuildNewBlock
import CredaCash.Settlement.Ledger
import CredaCash.Settlement.MatchLife
import CredaCash.Settlement.IndexBlock
import CredaCash.Settlement.LedgerRun
import CredaCash.Chain.Donations
import CredaCash.Chain.AmountCodec
import CredaCash.Chain.PayOut
import CredaCash.UniFloat.Monotone
import CredaCash.Settlement.MiningBounds
import CredaCash.Chain.TopWitness
import CredaCash.UnaryCode
import CredaCash.Chain.SkipScore
import CredaCash.Exchange.Prune
import CredaCash.Node.Connection
import CredaCash.UniFloat.Directed
import CredaCash.UniFloat.DirectedSum
import CredaCash.UniFloat.WireCodec
import CredaCash.UniFloat.WireEncode
import CredaCash.RangeCoder
import CredaCash.Text.AlphaCode
import CredaCash.Text.BestTable
import CredaCash.Regroup
import CredaCash.Probing
import CredaCash.Tracker.Hostname
import CredaCash.Tracker.Dir
import CredaCash.Tracker.DirInvariant
import CredaCash.Tracker.DirSteps
import CredaCash.Tracker.DirRun
import CredaCash.Groups
import CredaCash.Tracker.Expire
import CredaCash.Tracker.PickN
import CredaCash.Wallet.TotalBalance
import CredaCash.Wallet.NoWait
import CredaCash.Node.BlockSync
import CredaCash.BigEndian
import CredaCash.Amounts.Packed
import CredaCash.Exchange.BlockTimes
import CredaCash.FirstHit
import CredaCash.ByteMemory
import CredaCash.Wire.ProofOfWork
import CredaCash.CodeSearch
import CredaCash.Interpolation
import CredaCash.Exchange.ExpTable
import CredaCash.Exchange.MapValues
import CredaCash.PlaceValue
import CredaCash.Text.Stringify
import CredaCash.Text.SpecText
import CredaCash.Words
import CredaCash.Amounts.Shift
import CredaCash.Text.Buf2Uint
import CredaCash.Derivation
import CredaCash.Spend.Secrets
import CredaCash.Spend.SecretChain
import CredaCash.Spend.SecretFlags
import CredaCash.CString
import CredaCash.Tracker.Request
import CredaCash.Json.ParseInt
import CredaCash.Json.Members
import CredaCash.Spend.SecretsJson
import CredaCash.Spend.RestrictedAddresses
import CredaCash.Wallet.BilletHolds
import CredaCash.Wallet.BigintOps
import CredaCash.Wallet.Change
import CredaCash.ProRata
import CredaCash.Wallet.UnitSteps
import CredaCash.Wallet.Distribution
import CredaCash.Wallet.AdjustedAmounts
import CredaCash.Json.HexText
import CredaCash.Chain.AmountJson
import CredaCash.Json.NumberFormat
import CredaCash.Json.ParseFormat
import CredaCash.RootSign
import CredaCash.LucasTest
import CredaCash.Wire.CompressProof
import CredaCash.Wire.Bn128
import CredaCash.Wire.ProofRoundTrip
import CredaCash.Chain.SpentSerialnums
import CredaCash.Chain.BlockThreads
import CredaCash.Chain.GrownChain
import CredaCash.Chain.ConfirmBound
import CredaCash.Chain.DoubleSpend
import CredaCash.Circuit
import CredaCash.FieldBits
import CredaCash.Zk.ExtractBits
import CredaCash.Zk.Hash
import CredaCash.Zk.Words
import CredaCash.Zk.TxPayZK
import CredaCash.Zk.Output
import CredaCash.Zk.Input
import CredaCash.Zk.InputRules
import CredaCash.Zk.Merkle
import CredaCash.Zk.ComputeTx
import CredaCash.Zk.Conservation
import CredaCash.Zk.Unfunded
import CredaCash.Zk.Unbound
import CredaCash.Exchange.MatchRate
import CredaCash.Exchange.MiningTrade
import CredaCash.Exchange.AmountSafety
