import EncedoHem.Session

namespace EncedoHem
open Text Dialogue

def mapHttpStatus (status : Int) : Rc :=
  if status = 401 then .authFailed
  else if status = 403 then .scopeDenied
  else if status = 404 then .notFound
  else if 400 ≤ status then .device
  else .protocol

def isHexDigit (c : UInt8) : Bool := (hexDigit c).isSome

def isKidHex (s : Bytes) : Bool := s.length = 32 && s.all isHexDigit

def makeBearer (token : Bytes) : Cmd Bytes := do
  need
  pure (lit "Bearer " ++ token)

section
variable (cfg : Config)

/-- The headers of a request: a content type goes with a body, the bearer with a scope. -/
def requestHeaders (jsonBody bearer : Option Bytes) : List (Bytes × Bytes) :=
  [(lit "Accept", lit "application/json")] ++
    (match jsonBody with
      | some _ => [(lit "Content-Type", lit "application/json")]
      | none => []) ++
    (match bearer with
      | some b => [(lit "Authorization", b)]
      | none => [])

def buildRequest (method : Method) (path : Bytes) (jsonBody bearer : Option Bytes)
    (ov : TlsOverride) (fresh : Bool) : Request where
  method := method
  path := path
  headers := requestHeaders jsonBody bearer
  body := jsonBody
  connectTimeoutMs := cfg.connectTimeoutMs
  totalTimeoutMs := cfg.totalTimeoutMs
  tlsOverride := ov
  freshConnection := fresh

def doSend (scope : Option Bytes) (method : Method) (path : Bytes)
    (jsonBody bearer : Option Bytes) (ov : TlsOverride) (fresh : Bool) : Cmd Answer := do
  sleepMs cfg.requestPaceMs
  transportSend scope (buildRequest cfg method path jsonBody bearer ov fresh)

/-- The transport failure `why` goes on record with the transport's own detail. -/
def sendFailed {α : Type} (path : Bytes) (why : SendFailure) (expired : Bool) (detail : Bytes) :
    Cmd α := do
  record 0 none [.text path, txt ": ", .text detail]
  modifyCtx fun s => s.setTlsExpired expired
  throwRc why.rc

/-- Automatic certificate recovery after the first dispatch: an expired peer
certificate starts a check-in, and after it the one resend on a new connection.
Whatever else the dispatch came to is passed on. -/
def recoverCert (checkin : Cmd Unit) (resend : Cmd Answer) (path : Bytes) (ov : TlsOverride)
    (a : Answer) : Cmd Answer := do
  let s ← getCtx
  match a with
  | .failed why true detail =>
    if cfg.noAutoCheckin ∨ s.inCheckin ∨ ov ≠ .default then pure a
    else do
      let crc ← checkin.attempt
      match crc with
      | .error _ => do
        record 0 none [.text path, txt ": ", .text (detail.take 255),
          txt " (automatic check-in recovery failed: ", .ownMessage, txt ")"]
        modifyCtx fun s => s.setTlsExpired true
        throwRc why.rc
      | .ok _ => do
        let a' ← resend
        match a' with
        | .done _ => do
          modifyCtx fun s => { s with certRefreshed := true }
          pure a'
        | .failed _ true _ => do
          record 0 none [.text path, txt ": ", .text (detail.take 255),
            txt " (check-in completed and the device accepted a certificate update, but it still serves the old certificate - a device reboot may be required to apply it)"]
          modifyCtx fun s => s.setTlsExpired true
          throwRc why.rc
        | .failed _ false _ => pure a'
  | _ => pure a

/-- The exchange must have completed. -/
def requireDone (path : Bytes) : Answer → Cmd Response
  | .done r => pure r
  | .failed why expired detail => sendFailed path why expired detail

/-- The sanctioned retry: a 401 under a scope drops the scope's token, takes a
new one and sends once more, without certificate recovery. -/
def retryAuth (ensure : Bytes → Cmd Bytes) (resend : Option Bytes → Cmd Answer) (path : Bytes)
    (scope : Option Bytes) (r : Response) : Cmd Response :=
  match scope with
  | none => pure r
  | some sc =>
    if r.status ≠ 401 then pure r
    else do
      authInvalidate sc
      let token ← ensure sc
      let bearer ← makeBearer token
      let a ← resend (some bearer)
      match a with
      | .done r' => pure r'
      | .failed why _ detail => ctxFail why.rc 0 none [.text path, txt ": ", .text detail]

/-- What the final response means. -/
def judge (path : Bytes) (r : Response) : Cmd Bytes :=
  if r.status < 200 ∨ 300 ≤ r.status then
    ctxFail (mapHttpStatus r.status) r.status (r.body.map cstr)
      [.text path, txt ": HTTP ", num r.status]
  else match r.body with
    | none => ctxFail .protocol r.status none [.text path, txt ": empty response body"]
    | some [] => ctxFail .protocol r.status none [.text path, txt ": empty response body"]
    | some b => pure (cstr b)

/-- The bearer for the scope, if there is one. -/
def acquireBearer (ensure : Bytes → Cmd Bytes) : Option Bytes → Cmd (Option Bytes)
  | none => pure none
  | some sc => do
    let token ← ensure sc
    let bearer ← makeBearer token
    pure (some bearer)

/-- The dispatches of a request that holds its bearer, and the verdict on them. -/
def exchangeWith (ensure : Bytes → Cmd Bytes) (checkin : Cmd Unit) (method : Method)
    (path : Bytes) (jsonBody scope : Option Bytes) (ov : TlsOverride) (bearer : Option Bytes) :
    Cmd Bytes := do
  let a ← doSend cfg scope method path jsonBody bearer ov false
  let a ← recoverCert cfg checkin (doSend cfg scope method path jsonBody bearer ov true) path ov a
  let r ← requireDone path a
  let r ← retryAuth ensure (fun bearer => doSend cfg scope method path jsonBody bearer ov true)
    path scope r
  judge path r

/-- `ehem_proto_request_raw`, over the token engine and the check-in it calls. -/
def requestRawWith (ensure : Bytes → Cmd Bytes) (checkin : Cmd Unit) (method : Method)
    (path : Bytes) (jsonBody scope : Option Bytes) (ov : TlsOverride) : Cmd Bytes :=
  if cfg.hasTransport = false then ctxFail .arg 0 none [txt "no transport configured"]
  else do
    let bearer ← acquireBearer ensure scope
    exchangeWith cfg ensure checkin method path jsonBody scope ov bearer

/-- The object a body holds, for whatever request it answers. -/
def parseBody (path body : Bytes) : Cmd Json := do
  let root ← parseJson body
  match root with
  | none => ctxFail .protocol 0 (some body) [.text path, txt ": malformed JSON response"]
  | some root =>
    if root.isObject then pure root
    else ctxFail .protocol 0 (some body) [.text path, txt ": response is not a JSON object"]

end

end EncedoHem
