import EncedoHem.Notify

namespace EncedoHem
open Text Dialogue

/-- Standard base64 of exactly 32 bytes. -/
def isB64Of32 (s : Bytes) : Bool :=
  if s.length < 43 ∨ 46 < s.length then false
  else ((b64StdDecode s 48).map (·.length)) = some 32

/-- A required string member of a device's answer, copied. -/
def reqStr (root : Json) (what key : Bytes) : Cmd Bytes :=
  match root.getString key with
  | none => ctxFail .protocol 200 none [.text what, txt ": response missing '", .text key, txt "'"]
  | some s => do
    need
    pure s

def extRequestPath : Bytes := lit "/api/auth/ext/request"
def extTokenPath : Bytes := lit "/api/auth/ext/token"

structure ExtRequestInfo where
  authreq : Bytes
  epk : Bytes
  deriving DecidableEq, Repr

/-- An optional member of the ext-login request. -/
def optMember (key : Bytes) : Option Bytes → List (Bytes × Json)
  | none => []
  | some v => [(key, .str v)]

section
variable (cfg : Config)

/-- A post of the ext-login pair with its one recovery: a 403 means that the
device's clock is unset, so a check-in sets it and the post is sent once more. -/
def extLoginPost (path body : Bytes) : Cmd Json := do
  let r ← (requestPlainJson cfg .post path (some body)).attempt
  let s ← getCtx
  match r with
  | .ok root => pure root
  | .error rc =>
    if s.lastError.httpStatus = 403 ∧ ¬cfg.noAutoCheckin ∧ ¬s.inCheckin then do
      let crc ← (recoveryCheckin cfg).attempt
      match crc with
      | .error _ => do
        let s ← getCtx
        ctxFail rc 403 none [.text path,
          txt ": HTTP 403 (device RTC not set; automatic check-in failed: ",
          .text s.lastError.message, txt ")"]
      | .ok _ => requestPlainJson cfg .post path (some body)
    else throwRc rc

def extRequest (epk scope : Bytes) (ctxStr note : Option Bytes) : Cmd ExtRequestInfo := do
  clearError
  if ¬isB64Of32 epk then
    ctxFail .arg 0 none [txt "ext/request: epk must be standard base64 of exactly 32 bytes"]
  else if 1023 < scope.length then
    ctxFail .arg 0 none [txt "ext/request: scope exceeds 1023 bytes"]
  else if ctxStr.any (fun c => c.length < 1 ∨ 64 < c.length) then
    ctxFail .arg 0 none [txt "ext/request: ctx must be 1..64 chars (the firmware silently drops out-of-range values)"]
  else if note.any (fun c => c.length < 1 ∨ 128 < c.length) then
    ctxFail .arg 0 none [txt "ext/request: note must be 1..128 chars (the firmware silently drops out-of-range values)"]
  else do
    let body ← printObject ([(lit "epk", .str epk), (lit "scope", .str scope)] ++
      optMember (lit "ctx") ctxStr ++ optMember (lit "note") note)
    let root ← extLoginPost cfg extRequestPath body
    need
    let authreq ← reqStr root (lit "auth/ext/request") (lit "authreq")
    let epk ← reqStr root (lit "auth/ext/request") (lit "epk")
    pure ⟨authreq, epk⟩

def extToken (authreply : Bytes) : Cmd Bytes := do
  clearError
  if authreply = [] then ctxFail .arg 0 none [txt "ext/token: authreply JWT is empty"]
  else do
    let body ← printObject [(lit "authreply", .str authreply)]
    let r ← (extLoginPost cfg extTokenPath body).attempt
    let s ← getCtx
    match r with
    | .error rc =>
      if s.lastError.httpStatus = 401 then
        ctxFail .authFailed 401 none
          [txt "auth/ext/token: reply JWT rejected (401 - bad signature, expired, or replayed nonce)"]
      else if s.lastError.httpStatus = 406 then
        ctxFail .authFailed 406 none
          [txt "auth/ext/token: reply not acceptable (406 - unknown authenticator, unsupported scheme, or scope ciphertext failed to authenticate)"]
      else throwRc rc
    | .ok root =>
      match root.getString (lit "token") with
      | none => ctxFail .protocol 200 none [txt "auth/ext/token: response missing 'token'"]
      | some t => do
        need
        pure t

def brokerIatFutureSkew : Int := 2
def brokerIatPastSkew : Int := 15

def peekJwtIat (jwt : Bytes) : Cmd (Option Int) := peekClaim jwt (lit "iat")

/-- What one push attempt leaves behind besides its outcome: the device's answer,
once there is one. -/
structure Push where
  outcome : Except Rc Bytes
  reqi : Option ExtRequestInfo

/-- One push attempt: an anonymous broker session, the device's authreq, the
broker event. It yields the event's id. -/
def confirmFirePush (notifyUrl : Option Bytes) (scope : Bytes) (ctxStr note : Option Bytes) :
    Cmd Push := do
  let session ← (notifySession cfg notifyUrl none).attempt
  match session with
  | .error rc => pure ⟨.error rc, none⟩
  | .ok epk => do
    let req ← (extRequest cfg epk scope ctxStr note).attempt
    match req with
    | .error rc => pure ⟨.error rc, none⟩
    | .ok reqi => do
      let event ← (notifyEventNew cfg notifyUrl reqi.authreq reqi.epk).attempt
      pure ⟨event, some reqi⟩

/-- The broker holds the authreq's `iat` against its own clock: clearly ahead of
local time, or far behind it, a refusal is taken for clock drift. -/
def brokerDriftEvident (drift : Int) : Bool :=
  drift > brokerIatFutureSkew || drift < -brokerIatPastSkew

/-- How far the authreq's clock is from local time; no reading gives no distance. -/
def authreqDrift (authreq : Bytes) : Cmd Int := do
  let iat ← peekJwtIat authreq
  match iat with
  | none => pure 0
  | some iat => do
    let now ← wallTime
    pure (iat - now)

/-- Broker clock-drift recovery: a 401 on the event with drift in evidence is worth
one check-in and one new push; a failed check-in leaves the first outcome. -/
def recoverPush (notifyUrl : Option Bytes) (scope : Bytes) (ctxStr note : Option Bytes)
    (push : Push) : Cmd (Except Rc Bytes) := do
  let s ← getCtx
  match push.outcome, push.reqi with
  | .error _, some reqi =>
    if s.lastError.httpStatus = 401 ∧ ¬cfg.noAutoCheckin ∧ ¬s.inCheckin then do
      let drift ← authreqDrift reqi.authreq
      if brokerDriftEvident drift then do
        let crc ← (recoveryCheckin cfg).attempt
        match crc with
        | .ok _ => do
          let again ← confirmFirePush cfg notifyUrl scope ctxStr note
          pure again.outcome
        | .error _ => pure push.outcome
      else pure push.outcome
    else pure push.outcome
  | _, _ => pure push.outcome

/-- A new handle, its strings copied. -/
def newConfirm (notifyUrl : Option Bytes) (scope : Bytes) : Cmd Confirm := do
  need
  need
  match notifyUrl with
  | none => pure ⟨none, scope, none, false⟩
  | some url => do
    need
    pure ⟨some url, scope, none, false⟩

/-- The consumer's notice of a delivered push. -/
def pushNotice (scope : Bytes) : Cmd Unit :=
  if cfg.confirmNotice then notice scope cfg.confirmTimeoutMs else pure ()

/-- `ehem_ext_confirm_begin`: the handle of a delivered push. -/
def confirmBegin (notifyUrl : Option Bytes) (scope : Bytes) (ctxStr note : Option Bytes) :
    Cmd Confirm := do
  let c ← newConfirm notifyUrl scope
  let push ← confirmFirePush cfg notifyUrl scope ctxStr note
  let outcome ← recoverPush cfg notifyUrl scope ctxStr note push
  match outcome with
  | .error rc => throwRc rc
  | .ok eventid => do
    pushNotice cfg scope
    pure { c with eventid := some eventid }

inductive ConfirmStatus where
  | pending | approved
  deriving DecidableEq, Repr

/-- Redeem an approved reply and keep the bearer under the handle's scope. -/
def confirmRedeem (scope authreply : Bytes) : Cmd ConfirmStatus := do
  mark (.redeem scope)
  let token ← extToken cfg authreply
  authCacheSeed scope token
  pure .approved

/-- The broker's view of a handle's event. -/
def confirmCheck (c : Confirm) : Cmd (Polled EventResult) :=
  match c.eventid with
  | none => throwRc .arg
  | some eventid => notifyEventCheck cfg c.notifyUrl eventid

/-- `ehem_ext_confirm_poll`: its outcome and the handle it leaves. -/
def confirmPoll (c : Confirm) : Cmd (Except Rc ConfirmStatus × Confirm) :=
  if c.terminal then do
    let rc ← (ctxFail (α := ConfirmStatus) .arg 0 none
      [txt "confirm: handle already finished (single-use)"]).attempt
    pure (rc, c)
  else do
    let polled ← (confirmCheck cfg c).attempt
    match polled with
    | .error rc => pure (.error rc, c)
    | .ok .pending => pure (.ok .pending, c)
    | .ok (.ready .denied) => do
      let rc ← (ctxFail (α := ConfirmStatus) .userRejected 0 none
        [txt "confirm: rejected on the authenticator"]).attempt
      pure (rc, { c with terminal := true })
    | .ok (.ready (.approved authreply)) => do
      let r ← (confirmRedeem cfg c.scope authreply).attempt
      pure (r, { c with terminal := true })

/-- The loop of `ehem_ext_confirm_wait` with `elapsed` of the timeout gone; every
round sleeps at least a millisecond, so that the timeout itself bounds the rounds. -/
def confirmWaitLoop (timeoutMs : Int) : Nat → Int → Confirm → Cmd (Except Rc Unit × Confirm)
  | 0, _, c => pure (.error .confirmTimeout, c)
  | rounds + 1, elapsed, c => do
    let (r, c) ← confirmPoll cfg c
    match r with
    | .error rc => pure (.error rc, c)
    | .ok .approved => pure (.ok (), c)
    | .ok .pending =>
      if timeoutMs ≤ elapsed then do
        let rc ← (ctxFail (α := Unit) .confirmTimeout 0 none
          [txt "confirm: not answered within ", num timeoutMs, txt " ms"]).attempt
        pure (rc, c)
      else do
        let step := min (cfg.pollIntervalMs : Int) (timeoutMs - elapsed)
        sleepMs step
        confirmWaitLoop timeoutMs rounds (elapsed + step) c

def confirmWait (c : Confirm) (timeoutMs : Int) : Cmd (Except Rc Unit × Confirm) :=
  if timeoutMs ≤ 0 then pure (.error .arg, c)
  else confirmWaitLoop cfg timeoutMs (timeoutMs.toNat + 1) 0 c

end

end EncedoHem
