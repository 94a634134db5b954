import EncedoHem.Lib.Double
import EncedoHem.Lib.Bits
import EncedoHem.Lib.Blind
import EncedoHem.Lib.Credits
import EncedoHem.Lib.Words
import EncedoHem.Proofs.Dispatches
import EncedoHem.Proofs.Mismatch
import EncedoHem.Logger
import EncedoHem.Crypto
import EncedoHem.ExtPair
import EncedoHem.Proofs.Posture
import EncedoHem.Proofs.Exchange
import EncedoHem.Proofs.CheckinCause
import EncedoHem.Proofs.Codec
import EncedoHem.Bip39
import EncedoHem.Proofs.Mnemonic
import EncedoHem.Proofs.KeyWalk
import EncedoHem.Proofs.SessionState
import EncedoHem.Proofs.Acquisition
import EncedoHem.Proofs.Blind
import EncedoHem.Proofs.Budget
import EncedoHem.Proofs.Expiry
import EncedoHem.Proofs.Handles
import EncedoHem.Lib.Checked
import EncedoHem.Proofs.Waiting
import EncedoHem.Proofs.Verdict
import EncedoHem.Proofs.Peers
import EncedoHem.Proofs.Aliasing
import EncedoHem.Proofs.Personalise
import EncedoHem.Lib.Block
import EncedoHem.Ejwt
import EncedoHem.Proofs.Compact
import EncedoHem.Proofs.Range
import EncedoHem.Proofs.JsonText
import EncedoHem.Proofs.KeyWrites
import EncedoHem.Lib.Willing
import EncedoHem.Proofs.Liveness
import EncedoHem.Proofs.Retention
import EncedoHem.KeyType
import EncedoHem.Lib.Flags
import EncedoHem.Proofs.WordSearch
import EncedoHem.Proofs.KeyTypes
import EncedoHem.Proofs.Random
import EncedoHem.Proofs.Relay
import EncedoHem.Lib.Layout
import EncedoHem.Options
import EncedoHem.Proofs.Coverage
import EncedoHem.Proofs.Rescue
import EncedoHem.Proofs.CheckinLaw
import EncedoHem.Proofs.Provenance
import EncedoHem.Lib.Decimal
import EncedoHem.Proofs.JsonRound
import EncedoHem.Proofs.JsonAccepted
import EncedoHem.Proofs.Splice
import EncedoHem.Lib.Blame
import EncedoHem.Proofs.Blame
import EncedoHem.Proofs.Mistaken
import EncedoHem.Proofs.EmptySuccess
import EncedoHem.Proofs.NotFound
import EncedoHem.Proofs.Recoveries
import EncedoHem.Proofs.ValueCalls
import EncedoHem.Proofs.KeyUses
import EncedoHem.Proofs.CipherTrip
import EncedoHem.QrPayload
import EncedoHem.Proofs.QrRead
import EncedoHem.Proofs.Reuse
import EncedoHem.Proofs.Modes
