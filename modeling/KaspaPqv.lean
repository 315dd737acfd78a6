import KaspaPqv.Lib.Bytes
import KaspaPqv.Lib.SignMagnitude
import KaspaPqv.Lib.Delimited
import KaspaPqv.Lib.Fallible
import KaspaPqv.Lib.CodeGen
import KaspaPqv.Lib.Lines
import KaspaPqv.Lib.AppendLog
import KaspaPqv.Lib.Account
import KaspaPqv.Lib.Options
import KaspaPqv.Lib.Decimal
import KaspaPqv.Script.Engine
import KaspaPqv.Script.Rules
import KaspaPqv.VaultCore.Binding
import KaspaPqv.VaultCore.BindingScript
import KaspaPqv.VaultCore.Merge
import KaspaPqv.LmsScript.Ots
import KaspaPqv.LmsScript.Rfc8554
import KaspaPqv.LmsScript.Verify
import KaspaPqv.LmsWallet.Record
import KaspaPqv.LmsWallet.Journal
import KaspaPqv.LmsWallet.Crash
import KaspaPqv.LmsWallet.TwoWallets
import KaspaPqv.LmsWallet.Spend
import KaspaPqv.Lib.BitField
import KaspaPqv.Lib.PerfectTree
import KaspaPqv.Lib.Packing
import KaspaPqv.SlhScript.Adrs
import KaspaPqv.SlhScript.Digits
import KaspaPqv.SlhScript.Reference
import KaspaPqv.SlhScript.Sign
import KaspaPqv.LmsScript.Pinned
import KaspaPqv.LmsScript.Witness
import KaspaPqv.LmsWallet.Backed
import KaspaPqv.LmsWallet.Retry
import KaspaPqv.LmsWallet.Advance
import KaspaPqv.LmsWallet.LiveLeaf
import KaspaPqv.LmsWallet.Lifecycle
import KaspaPqv.VaultNode.Client
import KaspaPqv.LmsWallet.BeforeSigning
import KaspaPqv.LmsWallet.Torn
import KaspaPqv.SlhScript.Positions
import KaspaPqv.VaultCore.Derivation
import KaspaPqv.LmsWallet.Assemble
import KaspaPqv.LmsWallet.ChangeLeaf
import KaspaPqv.Script.Heights
import KaspaPqv.SlhScript.Body
import KaspaPqv.SlhScript.Correct
import KaspaPqv.SlhScript.SliceCost
import KaspaPqv.SlhScript.PeakStack
import KaspaPqv.SlhScript.Pinned
import KaspaPqv.SlhScript.Sound
import KaspaPqv.Lib.ChecksumCode
import KaspaPqv.Lib.GapWalk
import KaspaPqv.LmsScript.ChecksumScript
import KaspaPqv.LmsWallet.AnyText
import KaspaPqv.LmsWallet.Migration
import KaspaPqv.LmsWallet.RoundTrip
import KaspaPqv.LmsWallet.Scan
import KaspaPqv.SlhScript.WotsCode
import KaspaPqv.SlhWallet.Command
import KaspaPqv.SlhWallet.Apart
import KaspaPqv.VaultCli.Conservation
import KaspaPqv.VaultCli.Sizing
import KaspaPqv.VaultCli.Unlock
import KaspaPqv.VaultCli.Balance
import KaspaPqv.VaultCli.Holdings
import KaspaPqv.VaultCli.Env
import KaspaPqv.VaultCli.Ledger
import KaspaPqv.VaultCli.Args
import KaspaPqv.VaultCli.Main
import KaspaPqv.VaultCore.KeyText
import KaspaPqv.VaultHarness.Cost
import KaspaPqv.SlhScript.MidSigner
import KaspaPqv.SlhScript.Separation
import KaspaPqv.SlhScript.Numbers
import KaspaPqv.SlhScript.ParallelMap
import KaspaPqv.SlhScript.Primitives
import KaspaPqv.SlhScript.SharedCache
import KaspaPqv.SlhScript.Delivery
import KaspaPqv.Lib.Binding
import KaspaPqv.SlhScript.Binding
import KaspaPqv.VaultCore.RebuiltDigest
import KaspaPqv.VaultCore.Unlock
import KaspaPqv.SlhScript.Redeem
import KaspaPqv.LmsScript.Redeem
import KaspaPqv.LmsScript.OneTime
