import CcVrf.Library.Lucas
import CcVrf.Library.PrimeOrder
import CcVrf.Library.Runs
import CcVrf.Library.Projection
import CcVrf.Library.GrowOnly
import CcVrf.Library.Codec
import CcVrf.Library.FirstMatch
import CcVrf.Library.CursorScan
import CcVrf.Library.KeyedChunks
import CcVrf.Library.JsNumber
import CcVrf.Library.BitMask
import CcVrf.Library.BlockString
import CcVrf.Library.RejectionSampling
import CcVrf.Library.FisherYates
import CcVrf.Library.Framing
import CcVrf.Library.BoundedSearch
import CcVrf.Library.CallLog
import CcVrf.Library.AdaptiveQueries
import CcVrf.Ecvrf.Encoding
import CcVrf.Ecvrf.Suite
import CcVrf.Ecvrf.Noble
import CcVrf.Ecvrf.Vrf
import CcVrf.Ecvrf.AcceptedProofs
import CcVrf.Ecvrf.TextEncoder
import CcVrf.Ecvrf.Soundness
import CcVrf.Ecvrf.Expand
import CcVrf.Ecvrf.Draws
import CcVrf.Ecvrf.StreamBytes
import CcVrf.Ecvrf.NextRange
import CcVrf.Ecvrf.Shuffle
import CcVrf.Ecvrf.StreamMethods
import CcVrf.Ecvrf.StreamTree
import CcVrf.Ecvrf.WellFormed
import CcVrf.Ecvrf.TextDecoder
import CcVrf.Ecvrf.PathEncoding
import CcVrf.Ecvrf.HashInputs
import CcVrf.Ecvrf.HashToCurve
import CcVrf.Ecvrf.VerifierCalls
import CcVrf.Ecvrf.CanonicalProofs
import CcVrf.Ecvrf.SeedKeys
import CcVrf.Ecvrf.HexCodec
import CcVrf.Ecvrf.CountBytes
import CcVrf.Ecvrf.Uniqueness
import CcVrf.Program.State
import CcVrf.Program.Light
import CcVrf.Program.Instructions
import CcVrf.Program.Actions
import CcVrf.Program.Invariants
import CcVrf.Program.Lifecycle
import CcVrf.Program.Commits
import CcVrf.Program.Replay
import CcVrf.Program.Isolation
import CcVrf.Program.Provenance
import CcVrf.Client.Records
import CcVrf.Client.LightJs
import CcVrf.Client.Addresses
import CcVrf.Client.VerifyEndToEnd
import CcVrf.Client.Fetch
import CcVrf.Client.Operations
import CcVrf.Client.Builders
import CcVrf.Client.Events
import CcVrf.System.Requests
import CcVrf.System.Revocation
import CcVrf.System.Substitution
import CcVrf.System.EventMode
import CcVrf.System.EventLookup
import CcVrf.System.CommitPipeline
import CcVrf.Client.Verdict
import CcVrf.System.EventOrder
import CcVrf.System.RegistryFetch
import CcVrf.System.BuiltInstructions
import CcVrf.System.EventPipeline
import CcVrf.Demo.Dice
import CcVrf.Demo.Rolls
import CcVrf.Demo.Recorded
import CcVrf.Demo.Verify
import CcVrf.Demo.RollValue
import CcVrf.Demo.LostKey
import CcVrf.Demo.Simulate
import CcVrf.Website.VerifyPage
import CcVrf.Website.LookupPage
import CcVrf.Website.RecordedRolls
import CcVrf.Website.WalletDemo
import CcVrf.Website.WalletRows
