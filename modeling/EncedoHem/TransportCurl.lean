import EncedoHem.Types

namespace EncedoHem
open Text

/-- The results of libcurl that the transport tells apart. -/
inductive CurlCode where
  | ok | couldntResolveHost | couldntResolveProxy | couldntConnect | weirdServerReply
  | operationTimedout | outOfMemory | urlMalformat | unsupportedProtocol
  | peerFailedVerification | sslConnectError
  | other (n : Nat)
  deriving DecidableEq, Repr

/-- The texts that a TLS backend describes an expired certificate with. -/
def expiredTexts : List Bytes :=
  [lit "expired", lit "date error, current date after", lit "ASN_AFTER_DATE"]

/-- The verdict on a failed transfer: the backend's verify result first, and
where that says nothing the error text. -/
def curlTlsExpired (code : CurlCode) (verifyResult : Int) (detail : Option Bytes) : Bool :=
  if code ≠ .peerFailedVerification ∧ code ≠ .sslConnectError then false
  else if verifyResult = 10 ∨ verifyResult = -151 then true
  else if verifyResult = 9 ∨ verifyResult = -150 then false
  else match detail with
    | none => false
    | some d => expiredTexts.any fun t => contains t (cstr d)

/-- How a failed transfer is reported; `connected` tells a timeout in the exchange
from one that came before a connection stood. -/
def curlMapError (code : CurlCode) (connected : Bool) : SendFailure :=
  match code with
  | .couldntResolveHost | .couldntResolveProxy | .couldntConnect | .weirdServerReply => .unreachable
  | .operationTimedout => if connected then .network else .unreachable
  | .outOfMemory => .nomem
  | .urlMalformat | .unsupportedProtocol => .arg
  | _ => .network

/-- The base and the path with one slash between them; an absolute URL stands alone. -/
def joinUrl (base path : Bytes) : Bytes :=
  if lit "https://" <+: path ∨ lit "http://" <+: path then path
  else match base.getLast?, path with
    | some 47, 47 :: rest => base ++ rest
    | some 47, path => base ++ path
    | _, [] => base
    | _, 47 :: rest => base ++ 47 :: rest
    | _, path => base ++ 47 :: path

/-- The options a reused easy handle holds. -/
structure Easy where
  customRequest : Option Bytes
  post : Bool
  nobody : Bool
  httpGet : Bool
  postFields : Option Bytes
  sslVerifyPeer : Int
  sslVerifyHost : Int
  caInfo : Option Bytes
  freshConnect : Bool
  url : Bytes
  httpHeader : List Bytes
  connectTimeoutMs : Int
  timeoutMs : Int
  deriving DecidableEq, Repr

def Easy.init : Easy := ⟨none, false, false, true, none, 1, 2, none, false, [], [], 300000, 0⟩

structure CurlState where
  handle : Easy
  baseUrl : Bytes
  tlsMode : TlsMode
  caFile : Option Bytes
  tlsExpired : Bool
  detail : Bytes
  deriving DecidableEq, Repr

/-- `ehem_transport_default_new`, memory permitting. -/
def transportDefaultNew (baseUrl : Bytes) (tlsMode : TlsMode) (caFile : Option Bytes) : CurlState where
  handle := .init
  baseUrl := baseUrl
  tlsMode := tlsMode
  caFile := if tlsMode = .caFile then caFile else none
  tlsExpired := false
  detail := []

/-- The TLS posture of one request: the context's mode unless it is overridden,
and the pinned CA only where it is not. -/
def applyTlsVerify (st : CurlState) (ov : TlsOverride) (h : Easy) : Easy :=
  let relaxed := decide (ov = .relax ∨ (ov = .default ∧ st.tlsMode = .insecure))
  let h := { h with
    sslVerifyPeer := if relaxed then 0 else 1
    sslVerifyHost := if relaxed then 0 else 2 }
  if st.tlsMode = .caFile then { h with caInfo := if ov = .default then st.caFile else none } else h

def resetMethod (h : Easy) : Easy :=
  { h with customRequest := none, post := false, nobody := false, httpGet := true }

def applyMethod (method : Method) (body : Option Bytes) (h : Easy) : Easy :=
  match method with
  | .get => h
  | .post => { h with post := true, postFields := some (body.getD []) }
  | .put => { h with customRequest := some (lit "PUT"), postFields := body <|> h.postFields }
  | .delete => { h with customRequest := some (lit "DELETE"), postFields := body <|> h.postFields }
  | .patch => { h with customRequest := some (lit "PATCH"), postFields := body <|> h.postFields }

/-- The handle as a request leaves it for the transfer. -/
def prepare (st : CurlState) (req : Request) : Easy :=
  let h := applyTlsVerify st req.tlsOverride (applyMethod req.method req.body (resetMethod st.handle))
  { h with
    freshConnect := req.freshConnection || decide (req.tlsOverride ≠ .default)
    url := joinUrl st.baseUrl req.path
    httpHeader := req.headers.map fun (name, value) => name ++ lit ": " ++ value
    connectTimeoutMs := if 0 < req.connectTimeoutMs then req.connectTimeoutMs else h.connectTimeoutMs
    timeoutMs := if 0 < req.totalTimeoutMs then req.totalTimeoutMs else h.timeoutMs }

/-- What a transfer comes to: libcurl's result with its error texts, whether a
connection stood, the backend's verify result, whether memory for the body ran
out, and the response. -/
structure Transfer where
  code : CurlCode
  errbuf : Bytes
  strerror : Bytes
  connected : Bool
  verifyResult : Int
  outOfMemory : Bool
  response : Response
  deriving DecidableEq, Repr

/-- The message of a failed transfer. -/
def Transfer.msg (t : Transfer) : Bytes := if cstr t.errbuf = [] then t.strerror else t.errbuf

/-- `curl_send`: the transfer it has done, if memory lets it come to one, what it
reports, and the state it leaves. `memory` covers the URL and the headers. -/
def curlSend (st : CurlState) (req : Request) (memory : Bool) (t : Transfer) :
    Option Easy × Answer × CurlState :=
  let st := { st with tlsExpired := false, detail := [] }
  if !memory then (none, .failed .nomem false [], st)
  else
    let h := prepare st req
    let st := { st with handle := h }
    if t.code = .ok then (some h, .done t.response, st)
    else if t.outOfMemory then (some h, .failed .nomem false [], st)
    else
      let detail := (cstr t.msg).take 255
      let expired := curlTlsExpired t.code t.verifyResult (some t.msg)
      (some h, .failed (curlMapError t.code t.connected) expired detail,
        { st with tlsExpired := expired, detail := detail })

/-- The transfers that a transport does for a sequence of requests. -/
def curlSends (st : CurlState) : List (Request × Bool × Transfer) → List (Request × Easy)
  | [] => []
  | (req, memory, t) :: rest =>
    let (h, _, st) := curlSend st req memory t
    (h.map fun h => (req, h)).toList ++ curlSends st rest

end EncedoHem
