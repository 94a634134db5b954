import EncedoHem.Checkin

namespace EncedoHem
open Text Dialogue

def defaultNotifyUrl : Bytes := lit "https://api.encedo.com/notify"

/-- A required string member of a broker's answer, copied. -/
def brokerStr (root : Json) (what key : Bytes) : Cmd Bytes :=
  match root.getString key with
  | none =>
    ctxFail .protocol 200 none
      [.text what, txt ": broker response missing '", .text key, txt "'"]
  | some s => do
    need
    pure s

section
variable (cfg : Config)

/-- One broker exchange: always verified in full, never with a bearer, not paced.
A 2xx answer is handed back with its status and its body, which may be missing. -/
def notifySend (method : Method) (notifyUrl : Option Bytes) (subpath : Bytes)
    (jsonBody : Option Bytes) : Cmd (Int × Option Bytes) :=
  if cfg.hasTransport = false then ctxFail .arg 0 none [txt "no transport configured"]
  else
    let base := notifyUrl.getD defaultNotifyUrl
    if base = [] then ctxFail .arg 0 none [txt "notify: empty broker URL"]
    else do
      need
      let url := base ++ subpath
      let a ← transportSend none (buildRequest cfg method url jsonBody none .verify false)
      match a with
      | .failed why _ detail => ctxFail why.rc 0 none [.text url, txt ": ", .text detail]
      | .done r =>
        if r.status < 200 ∨ 300 ≤ r.status then
          ctxFail (mapHttpStatus r.status) r.status (r.body.map cstr)
            [.text url, txt ": HTTP ", num r.status]
        else pure (r.status, r.body.map cstr)

/-- A broker exchange that must answer with an object. -/
def notifySendJson (method : Method) (notifyUrl : Option Bytes) (subpath : Bytes)
    (jsonBody : Option Bytes) : Cmd Json := do
  let (status, body) ← notifySend cfg method notifyUrl subpath jsonBody
  match body with
  | none => ctxFail .protocol status none [.text subpath, txt ": empty broker response body"]
  | some b => do
    let root ← parseJson b
    match root.filter (·.isObject) with
    | none =>
      ctxFail .protocol status (some b)
        [.text subpath, txt ": broker response is not a JSON object"]
    | some root => pure root

/-- The body of a session request: an eid makes it a post. -/
def sessionBody : Option Bytes → Cmd (Option Bytes)
  | none => pure none
  | some eid => do
    let b ← printObject [(lit "eid", .str eid)]
    pure (some b)

def notifySession (notifyUrl eid : Option Bytes) : Cmd Bytes := do
  clearError
  let body ← sessionBody eid
  let root ← notifySendJson cfg (if body.isSome then .post else .get) notifyUrl (lit "/session") body
  brokerStr root (lit "notify/session") (lit "epk")

structure RegisterInfo where
  rid : Bytes
  link : Bytes
  deriving DecidableEq, Repr

def notifyRegisterInit (notifyUrl : Option Bytes) (epk eid request : Bytes) : Cmd RegisterInfo := do
  clearError
  let body ← printObject
    [(lit "epk", .str epk), (lit "eid", .str eid), (lit "request", .str request)]
  let root ← notifySendJson cfg .post notifyUrl (lit "/register/init") (some body)
  need
  let rid ← brokerStr root (lit "notify/register/init") (lit "rid")
  let link ← brokerStr root (lit "notify/register/init") (lit "link")
  pure ⟨rid, link⟩

/-- What a polling endpoint says: still waiting, or a value. -/
inductive Polled (α : Type) where
  | pending
  | ready (a : α)
  deriving DecidableEq, Repr

/-- The sub-path of a polling endpoint, when it fits the 160-byte buffer. -/
def pollPath (stem id : Bytes) : Option Bytes :=
  if (stem ++ id).length < 160 then some (stem ++ id) else none

/-- A body that may be missing, parsed. -/
def parseOptional : Option Bytes → Cmd (Option Json)
  | none => pure none
  | some b => parseJson b

/-- One look at a polling endpoint: 202 means that there is nothing yet, any other
2xx must carry an object. -/
def notifyPoll (what stem id : Bytes) (notifyUrl : Option Bytes) (tooLong : Piece) :
    Cmd (Polled (Int × Bytes × Json)) :=
  match pollPath stem id with
  | none => ctxFail .arg 0 none [tooLong]
  | some subpath => do
    let (status, body) ← notifySend cfg .get notifyUrl subpath none
    need
    if status = 202 then pure .pending
    else do
      let root ← parseOptional body
      match root.filter (·.isObject) with
      | none =>
        ctxFail .protocol status body
          [.text what, txt ": broker response is not a JSON object"]
      | some root => pure (.ready (status, body.getD [], root))

structure PairingReply where
  pid : Bytes
  reply : Bytes
  deriving DecidableEq, Repr

def notifyRegisterCheck (notifyUrl : Option Bytes) (rid : Bytes) : Cmd (Polled PairingReply) := do
  clearError
  let polled ← notifyPoll cfg (lit "notify/register/check") (lit "/register/check/") rid notifyUrl
    (txt "notify/register/check: rid too long")
  match polled with
  | .pending => pure .pending
  | .ready (_, _, root) => do
    let pid ← brokerStr root (lit "notify/register/check") (lit "pid")
    let reply ← brokerStr root (lit "notify/register/check") (lit "reply")
    pure (.ready ⟨pid, reply⟩)

def notifyRegisterFinalise (notifyUrl : Option Bytes) (rid kid code : Bytes) : Cmd Unit := do
  clearError
  match pollPath (lit "/register/finalise/") rid with
  | none => ctxFail .arg 0 none [txt "notify/register/finalise: rid too long"]
  | some subpath => do
    let body ← printObject [(lit "kid", .str kid), (lit "code", .str code)]
    let _ ← notifySend cfg .post notifyUrl subpath (some body)
    pure ()

def notifyEventNew (notifyUrl : Option Bytes) (authreq epk : Bytes) : Cmd Bytes := do
  clearError
  let body ← printObject [(lit "authreq", .str authreq), (lit "epk", .str epk)]
  let root ← notifySendJson cfg .post notifyUrl (lit "/event/new") (some body)
  brokerStr root (lit "notify/event/new") (lit "eventid")

/-- The user's answer: a denial, or a reply to redeem. -/
inductive EventResult where
  | denied
  | approved (authreply : Bytes)
  deriving DecidableEq, Repr

def notifyEventCheck (notifyUrl : Option Bytes) (eventid : Bytes) : Cmd (Polled EventResult) := do
  clearError
  let polled ← notifyPoll cfg (lit "notify/event/check") (lit "/event/check/") eventid notifyUrl
    (txt "notify/event/check: eventid too long")
  match polled with
  | .pending => pure .pending
  | .ready (status, body, root) =>
    if root.has (lit "deny") then pure (.ready .denied)
    else match root.getString (lit "authreply") with
      | none =>
        ctxFail .protocol status (some body)
          [txt "notify/event/check: 200 with neither 'authreply' nor 'deny' - unknown broker shape"]
      | some s => do
        need
        pure (.ready (.approved s))

end

end EncedoHem
