import EncedoHem.Ext

namespace EncedoHem
open Text Dialogue

/-- A result whose failure is not on record yet. -/
def liftRc {α : Type} : Except Rc α → Cmd α
  | .ok a => pure a
  | .error rc => throwRc rc

/-- Memory whose absence only the return code tells. -/
def needQuiet : Cmd Unit := do
  let ok ← alloc
  if ok then pure () else throwRc .nomem

def ejwtHeader : Bytes :=
  lit "\x7b\"ecdh\":\"x25519\",\"alg\":\"HS256\",\"typ\":\"JWT\"\x7d"

/-- `sign_compact`: the header's segment has a buffer of 256 bytes. -/
def signCompact (header payload key : Bytes) : Cmd Bytes := do
  needQuiet
  match b64urlEncode header 256, b64urlEncode payload (b64urlEncodedLen payload.length + 1) with
  | some h, some p => do
    needQuiet
    let input := h ++ lit "." ++ p
    let mac ← hmacSha256 key input
    let mac ← liftRc mac
    match b64urlEncode mac 44 with
    | some tag => pure (input ++ lit "." ++ tag)
    | none => throwRc .protocol
  | _, _ => throwRc .protocol

/-- The claims of a login token, in the order they are printed. -/
def ejwtClaims (jti spk scope iss : Bytes) (now exp : Int) : List (Bytes × Json) :=
  [(lit "jti", .str jti), (lit "aud", .str spk), (lit "exp", .int exp), (lit "iat", .int now),
    (lit "iss", .str iss), (lit "scope", .str scope)]

def ejwtBuild (jti spk scope userPub shared : Bytes) (now exp : Int) : Cmd Bytes :=
  match b64StdEncode userPub 64 with
  | none => throwRc .protocol
  | some iss => do
    needQuiet
    signCompact ejwtHeader (printValue (.obj (ejwtClaims jti spk scope iss now exp))) shared

def authTokenPath : Bytes := lit "/api/auth/token"

/-- The body of the login post. -/
def authBody (ejwt : Bytes) : Bytes := printValue (.obj [(lit "auth", .str ejwt)])

/-- A challenge's `exp` is the device's clock plus 60 seconds; more than a minute
between that clock and ours counts as drift. -/
def challengeDriftEvident (challenge : Json) (now : Int) : Bool :=
  match challenge.getInt64 (lit "exp") with
  | none => false
  | some exp =>
    let drift := exp - 60 - now
    drift > tokenSkew || drift < -tokenSkew

section
variable (cfg : Config)

/-- Fetch the login challenge. A 403 means that the device's clock is unset; unless
this call has spent its recovery, a check-in sets it and the fetch is tried again. -/
def fetchChallenge (spent : Bool) : Cmd (Except Rc Json × Bool) := do
  let r ← (requestPlainJson cfg .get authTokenPath none).attempt
  let s ← getCtx
  match r with
  | .ok challenge => pure (.ok challenge, spent)
  | .error rc =>
    if s.lastError.httpStatus = 403 ∧ ¬spent ∧ ¬cfg.noAutoCheckin ∧ ¬s.inCheckin then do
      let crc ← (recoveryCheckin cfg).attempt
      match crc with
      | .error _ => do
        let s ← getCtx
        let r ← (ctxFail (α := Json) rc 403 none [.text authTokenPath,
          txt ": HTTP 403 (device RTC not set; automatic check-in failed: ",
          .text s.lastError.message, txt ")"]).attempt
        pure (r, true)
      | .ok _ => do
        let r ← (requestPlainJson cfg .get authTokenPath none).attempt
        pure (r, true)
    else pure (.error rc, spent)

/-- Keep the challenge's label as the user name, memory permitting. -/
def noteUsername (challenge : Json) : Cmd Unit :=
  match challenge.getString (lit "lbl") with
  | none => pure ()
  | some lbl => do
    let ok ← alloc
    if ok then modifyAuth fun a => { a with username := some lbl } else pure ()

/-- From the passphrase to the signed login token. -/
def deriveEjwt (scope eid spk jti peer : Bytes) (now : Int) : Cmd Bytes := do
  let s ← getCtx
  let passphrase := (s.auth.bind (·.passphrase)).getD []
  let seed ← kdfPbkdf2Sha256 passphrase eid cfg.kdfIters
  let seed ← liftRc seed
  let pair ← x25519KeypairFromSeed seed
  let pair ← liftRc pair
  let shared ← x25519Shared pair.1 peer
  let shared ← liftRc shared
  ejwtBuild jti spk scope pair.2 shared now (now + tokenLifetime)

/-- Post the signed answer and keep the token that comes back. -/
def redeemEjwt (scope ejwt : Bytes) (now : Int) : Cmd Bytes := do
  need
  let result ← requestPlainJson cfg .post authTokenPath (some (authBody ejwt))
  match result.getString (lit "token") with
  | none => ctxFail .protocol 200 none [.text authTokenPath, txt ": response has no 'token'"]
  | some token => do
    let exp ← decodeBearerExp token
    let put ← cachePut scope token (exp.getD (now + tokenLifetime) - tokenSkew)
    if put then do
      modifyAuth Auth.afterUse
      pure token
    else outOfMemory

/-- The rest of the login flow once a challenge is there. -/
def answerChallenge (scope : Bytes) (now : Int) (challenge : Json) : Cmd Bytes :=
  match challenge.getString (lit "eid"), challenge.getString (lit "spk"),
      challenge.getString (lit "jti") with
  | some eid, some spk, some jti => do
    noteUsername challenge
    match (b64StdDecode spk 32).filter (·.length = 32) with
    | none =>
      ctxFail .protocol 0 none
        [.text authTokenPath, txt ": challenge spk is not a 32-byte X25519 key"]
    | some peer => do
      let ejwt ← (deriveEjwt cfg scope eid spk jti peer now).attempt
      match ejwt with
      | .error _ => ctxFail .protocol 0 none [.text authTokenPath, txt ": credential derivation failed"]
      | .ok ejwt => redeemEjwt cfg scope ejwt now
  | _, _, _ =>
    ctxFail .protocol 0 none
      [.text authTokenPath, txt ": malformed challenge (need eid, spk, jti)"]

/-- What one run of the login flow came to: the token, whether the call's recovery
is spent by now, and whether the challenge showed clock drift. -/
structure Acquired where
  outcome : Except Rc Bytes
  spent : Bool
  drift : Bool

def acquireToken (scope : Bytes) (now : Int) (spent : Bool) : Cmd Acquired := do
  let init ← globalInit
  match init with
  | .error rc => do
    let r ← (ctxFail (α := Bytes) rc 0 none
      [.text authTokenPath, txt ": process-global init failed"]).attempt
    pure ⟨r, spent, false⟩
  | .ok _ => do
    let (r, spent) ← fetchChallenge cfg spent
    match r with
    | .error rc => pure ⟨.error rc, spent, false⟩
    | .ok challenge => do
      let r ← (answerChallenge cfg scope now challenge).attempt
      pure ⟨r, spent, challengeDriftEvident challenge now⟩

/-- The proactive check-in of a session's first acquisition; true when it failed.
The latch is set before the attempt, so that there is never a second one. -/
def proactiveCheckin : Cmd Bool := do
  let s ← getCtx
  if cfg.checkinOnLogin ∧ ¬s.checkinOnLoginDone ∧ ¬s.inCheckin then do
    modifyCtx fun s => { s with checkinOnLoginDone := true }
    let r ← (checkinRun cfg .proactive true).attempt
    match r with
    | .ok _ => pure false
    | .error _ => pure true
  else pure false

/-- Clock-drift recovery: a 401 on the login post with drift in evidence, when the
call's recovery is unspent, is worth one check-in and one new run of the flow. -/
def recoverDrift (scope : Bytes) (a : Acquired) : Cmd (Except Rc Bytes) := do
  let s ← getCtx
  match a.outcome with
  | .error .authFailed =>
    if a.drift ∧ s.lastError.httpStatus = 401 ∧ ¬a.spent ∧ ¬cfg.noAutoCheckin ∧ ¬s.inCheckin then do
      let crc ← (recoveryCheckin cfg).attempt
      match crc with
      | .ok _ => do
        let now ← authNow
        let again ← acquireToken cfg scope now true
        pure again.outcome
      | .error _ => do
        let s ← getCtx
        (ctxFail (α := Bytes) .authFailed 401 none [.text authTokenPath,
          txt ": HTTP 401 with device clock drift; recovery check-in failed: ",
          .text s.lastError.message]).attempt
    else pure a.outcome
  | _ => pure a.outcome

/-- The note a failed proactive check-in leaves in the message of a good login. -/
def breadcrumb (failed : Bool) : Cmd Unit :=
  if failed then modifyCtx fun s => s.setError { s.lastError with
    message := (lit "checkin_on_login: best-effort check-in failed; login proceeded") }
  else pure ()

def acquirePassphrase (scope : Bytes) (now : Int) : Cmd Bytes := do
  mark .acquire
  let failed ← proactiveCheckin cfg
  let a ← acquireToken cfg scope now false
  let r ← recoverDrift cfg scope a
  let token ← liftRc r
  breadcrumb failed
  mark (.granted scope token none)
  pure token

/-- Mobile mode acquires through the push-confirm engine, which leaves the bearer
in the cache. -/
def acquireMobile (scope : Bytes) : Cmd Bytes := do
  mark .acquire
  let _ ← proactiveCheckin cfg
  let c ← confirmBegin cfg none scope none none
  let (r, _) ← confirmWait cfg c cfg.confirmTimeoutMs
  let _ ← liftRc r
  let s ← getCtx
  match s.auth.bind (·.cacheFind scope) with
  | none =>
    ctxFail .protocol 0 none
      [txt "mobile login: confirmation succeeded but no bearer was cached for scope '",
        .text scope, txt "'"]
  | some e => do
    mark (.granted scope e.token none)
    pure e.token

/-- The scope's cached entry, when it is not expired at `now`. -/
def Ctx.freshEntry (s : Ctx) (scope : Bytes) (now : Int) : Option TokenEntry :=
  (s.auth.bind (·.cacheFind scope)).filter (now < ·.exp)

/-- `ehem_auth_ensure_token`. -/
def ensureToken (scope : Bytes) : Cmd Bytes := do
  let now ← authNow
  let s ← getCtx
  match s.freshEntry scope now with
  | some e => do
    mark (.granted scope e.token (some (e.exp, now)))
    pure e.token
  | none =>
    match s.auth with
    | some a =>
      if a.mobile then acquireMobile cfg scope
      else match a.passphrase with
        | some _ => acquirePassphrase cfg scope now
        | none =>
          ctxFail .authExpired 0 none
            [txt "no credential retained for scope '", .text scope, txt "' - call ehem_login()"]
    | none =>
      ctxFail .authExpired 0 none
        [txt "no credential retained for scope '", .text scope, txt "' - call ehem_login()"]

/-- `ehem_proto_request_raw`. -/
def requestRaw (method : Method) (path : Bytes) (jsonBody scope : Option Bytes)
    (ov : TlsOverride) : Cmd Bytes :=
  requestRawWith cfg (ensureToken cfg) (recoveryCheckin cfg) method path jsonBody scope ov

/-- `ehem_proto_request_json`. -/
def requestJson (method : Method) (path : Bytes) (jsonBody scope : Option Bytes)
    (ov : TlsOverride) : Cmd Json := do
  let body ← requestRaw cfg method path jsonBody scope ov
  parseBody path body

end

end EncedoHem
