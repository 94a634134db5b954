import EncedoHem.Lib.Dialogue
import EncedoHem.Json

namespace EncedoHem
open Text

/-- What a failed call returns; success is the value it hands out. -/
inductive Rc where
  | network | unreachable | authExpired | authFailed | scopeDenied | userRejected
  | confirmTimeout | notFound | device | protocol | arg | nomem | unsupported | backendMismatch
  deriving DecidableEq, Repr

inductive Method where
  | get | post | put | delete | patch
  deriving DecidableEq, Repr

/-- How one request is verified: as the context says, not at all, or always in full. -/
inductive TlsOverride where
  | default | relax | verify
  deriving DecidableEq, Repr

inductive TlsMode where
  | system | caFile | insecure
  deriving DecidableEq, Repr

structure Request where
  method : Method
  path : Bytes
  headers : List (Bytes × Bytes)
  body : Option Bytes
  connectTimeoutMs : Int
  totalTimeoutMs : Int
  tlsOverride : TlsOverride
  freshConnection : Bool
  deriving DecidableEq, Repr

structure Response where
  status : Int
  body : Option Bytes
  deriving DecidableEq, Repr

/-- The codes a transport's `send` fails with. -/
inductive SendFailure where
  | unreachable | network | nomem | arg
  deriving DecidableEq, Repr

def SendFailure.rc : SendFailure → Rc
  | .unreachable => .unreachable
  | .network => .network
  | .nomem => .nomem
  | .arg => .arg

/-- What a dispatch came to: a completed exchange whatever its status, or a
failure with the transport's verdict on an expired certificate and its detail text. -/
inductive Answer where
  | done (r : Response)
  | failed (why : SendFailure) (expired : Bool) (detail : Bytes)
  deriving DecidableEq, Repr

/-- The detail of the last failure, as `ehem_last_error` shows it. -/
structure ErrorDetail where
  httpStatus : Int
  devicePayload : Option Bytes
  message : Bytes
  tlsExpired : Bool
  deriving DecidableEq, Repr

/-- The options a context was created with; no call changes them. -/
structure Config where
  hasTransport : Bool
  connectTimeoutMs : Int
  totalTimeoutMs : Int
  requestPaceMs : Int
  tlsMode : TlsMode
  checkinUrl : Bytes
  noAutoCheckin : Bool
  checkinOnLogin : Bool
  confirmTimeoutMs : Int
  confirmNotice : Bool
  noCredentialRetention : Bool
  kdfIters : Nat
  pollIntervalMs : Nat
  confirmTimeout_pos : 0 < confirmTimeoutMs
  pollInterval_pos : 0 < pollIntervalMs

structure TokenEntry where
  scope : Bytes
  token : Bytes
  exp : Int
  deriving DecidableEq, Repr

structure Auth where
  passphrase : Option Bytes
  passphraseLen : Nat
  retain : Bool
  username : Option Bytes
  mobile : Bool
  cache : List TokenEntry
  deriving DecidableEq, Repr

/-- A confirm handle. -/
structure Confirm where
  notifyUrl : Option Bytes
  scope : Bytes
  eventid : Option Bytes
  terminal : Bool
  deriving DecidableEq, Repr

/-- The part of a context that calls change, and the confirm handles its client holds. -/
structure Ctx where
  certRefreshed : Bool
  inCheckin : Bool
  checkinOnLoginDone : Bool
  auth : Option Auth
  lastError : ErrorDetail
  handles : List (Option Confirm)
  deriving DecidableEq, Repr

/-- Why a check-in was started. -/
inductive CheckinReason where
  | explicit | proactive | recovery
  deriving DecidableEq, Repr

/-- Points of a call that leave a mark in the trace without touching anything. -/
inductive Mark where
  /-- `ehem_login`, `ehem_login_mobile`, `ehem_logout` or the dropping of the whole cache. -/
  | reset
  /-- The login inside `ehem_device_init`. -/
  | initLogin
  /-- The session engine starts acquiring a token. -/
  | acquire
  /-- The session engine hands out a token for a scope; one found in the cache
  comes with its stored expiry and the clock reading of the lookup. -/
  | granted (scope token : Bytes) (found : Option (Int × Int))
  /-- A confirm handle for the scope redeems its reply. -/
  | redeem (scope : Bytes)
  /-- A check-in starts. -/
  | checkin (why : CheckinReason)
  /-- The check-in that is running is over. -/
  | checkinDone
  deriving DecidableEq, Repr

/-- Everything a call asks of the world outside it. -/
inductive Op where
  /-- One dispatch through the transport, with the scope the request is made under. -/
  | send (scope : Option Bytes) (req : Request)
  /-- Memory for one object. -/
  | alloc
  /-- `auth_now()`. -/
  | authNow
  /-- `time(NULL)`. -/
  | wallTime
  | sleep (ms : Int)
  | notice (scope : Bytes) (timeoutMs : Int)
  | globalInit
  | pbkdf2 (passphrase salt : Bytes) (iters : Nat)
  | x25519Keypair (seed : Bytes)
  | x25519Shared (priv peer : Bytes)
  | hmacSha256 (key msg : Bytes)
  | mark (m : Mark)
  deriving DecidableEq, Repr

/-- What can come back: memory may be refused, a global initialisation or a
cryptographic operation may fail, the clocks and the transport are free. -/
@[reducible] def Ans : Op → Type
  | .send _ _ => Answer
  | .alloc => Bool
  | .authNow => Int
  | .wallTime => Int
  | .sleep _ => Unit
  | .notice _ _ => Unit
  | .globalInit => Except Rc Unit
  | .pbkdf2 _ _ _ => Except Rc Bytes
  | .x25519Keypair _ => Except Rc (Bytes × Bytes)
  | .x25519Shared _ _ => Except Rc Bytes
  | .hmacSha256 _ _ => Except Rc Bytes
  | .mark _ => Unit

abbrev Cmd := Dialogue.Cmd Op Ans Ctx Rc
abbrev Event := Dialogue.Event Op Ans
abbrev Runs {α : Type} (x : Cmd α) := Dialogue.Runs x

end EncedoHem
