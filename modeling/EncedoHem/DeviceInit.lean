import EncedoHem.Auth

namespace EncedoHem
open Text Dialogue

/-- What a device is initialised with. The strings that may be missing are those
the call checks for. -/
structure InitParams where
  passphrase : Option Bytes
  masterSecret : Option Bytes
  user : Option Bytes
  email : Option Bytes
  hostname : Option Bytes
  ip : Option Bytes
  storageMode : Int
  storageDisk0size : Int
  dnsd : Bool
  noTrustedTs : Bool
  noTrustedBackend : Bool
  noAllowKeysearch : Bool
  origin : Option Bytes
  ctxId : Int
  genCsr : Bool
  deriving DecidableEq, Repr

structure InitInfo where
  instanceid : Bytes
  csr : Option Bytes
  genuine : Option Bytes
  rebootRequired : Bool
  deriving DecidableEq, Repr

def authInitPath : Bytes := lit "/api/auth/init"

/-- Why the device refused an initialisation, where its status tells. -/
def initReason (status : Int) : Option String :=
  if status = 403 then some "device RTC not set - run a check-in first"
  else if status = 406 then some "device already initialised - wipe it first"
  else if status = 409 then some "device self-test state is not 0 (fls_state)"
  else if status = 400 then some "cfg rejected - a field is missing or failed validation"
  else if status = 401 then some "init JWT rejected (signature or jti)"
  else none

/-- The precondition codes of the init endpoint, explained; a 403 means an unset
clock here and not a missing scope. -/
def initExplain {α : Type} (rc : Rc) (leg : String) : Cmd α := do
  let s ← getCtx
  let st := s.lastError.httpStatus
  match initReason st with
  | none => throwRc rc
  | some why =>
    ctxFail (if st = 403 then .device else rc) st none
      [.text authInitPath, txt (" " ++ leg ++ ": HTTP "), num st, txt " - ", txt why]

/-- The required strings of the parameters, once they have been checked for. -/
structure InitStrings where
  passphrase : Bytes
  masterSecret : Bytes
  user : Bytes
  email : Bytes
  hostname : Bytes
  ip : Bytes
  deriving DecidableEq, Repr

def initStrings (p : InitParams) : Option InitStrings := do
  let passphrase ← p.passphrase
  let masterSecret ← p.masterSecret
  let user ← p.user
  let email ← p.email
  let hostname ← p.hostname
  let ip ← p.ip
  some ⟨passphrase, masterSecret, user, email, hostname, ip⟩

/-- The configuration block, in the order its members are sent. -/
def initCfg (p : InitParams) (q : InitStrings) (masterB64 userB64 : Bytes) : Json :=
  .obj [(lit "masterkey", .str masterB64), (lit "userkey", .str userB64), (lit "user", .str q.user),
    (lit "email", .str q.email), (lit "hostname", .str q.hostname), (lit "ip", .str q.ip),
    (lit "storage_mode", .int p.storageMode), (lit "storage_disk0size", .int p.storageDisk0size),
    (lit "dnsd", .bool p.dnsd), (lit "trusted_ts", .bool !p.noTrustedTs),
    (lit "trusted_backend", .bool !p.noTrustedBackend),
    (lit "allow_keysearch", .bool !p.noAllowKeysearch), (lit "origin", .str (p.origin.getD (lit "*"))),
    (lit "ctx", .int p.ctxId), (lit "gen_csr", .bool p.genCsr)]

/-- The claims of the init token. -/
def initClaims (p : InitParams) (q : InitStrings) (jti spk masterB64 userB64 : Bytes) (exp now : Int) :
    List (Bytes × Json) :=
  [(lit "jti", .str jti), (lit "aud", .str spk), (lit "exp", .int exp), (lit "iat", .int now),
    (lit "iss", .str masterB64), (lit "cfg", initCfg p q masterB64 userB64)]

/-- A public key in base64. -/
def keyB64 (key : Bytes) : Cmd Bytes :=
  match b64StdEncode key 64 with
  | none => throwRc .protocol
  | some b => pure b

section
variable (cfg : Config)

/-- The keys of the two personas: the shared secret of the master with the device,
and both public keys in base64. -/
def initKeys (q : InitStrings) (eid peer : Bytes) : Cmd (Bytes × Bytes × Bytes) := do
  let seed ← kdfPbkdf2Sha256 q.passphrase eid cfg.kdfIters
  let seed ← liftRc seed
  let user ← x25519KeypairFromSeed seed
  let user ← liftRc user
  let master ← x25519KeypairFromSeed q.masterSecret
  let master ← liftRc master
  let shared ← x25519Shared master.1 peer
  let shared ← liftRc shared
  let masterB64 ← keyB64 master.2
  let userB64 ← keyB64 user.2
  pure (shared, masterB64, userB64)

/-- The signed init token; the clock is read whether or not there are keys to sign with. -/
def initJwt (p : InitParams) (q : InitStrings) (eid spk jti peer : Bytes) (exp : Int) : Cmd Bytes := do
  let keys ← (initKeys cfg q eid peer).attempt
  let now ← authNow
  let (shared, masterB64, userB64) ← liftRc keys
  needQuiet
  signCompact ejwtHeader (printValue (.obj (initClaims p q jti spk masterB64 userB64 exp now))) shared

/-- The members of the init challenge that are needed. -/
def initChallenge (challenge : Json) : Option (Bytes × Bytes × Bytes × Int) := do
  let eid ← challenge.getString (lit "eid")
  let spk ← challenge.getString (lit "spk")
  let jti ← challenge.getString (lit "jti")
  let exp ← challenge.getInt64 (lit "exp")
  some (eid, spk, jti, exp)

/-- The body of the commit. -/
def initBody (jwt : Bytes) : Bytes := printValue (.obj [(lit "init", .str jwt)])

/-- The device is personalised: the context takes over the user session, with the
bearer that came back under its scope. -/
def initSession (q : InitStrings) (token : Bytes) : Cmd Unit := do
  loginMarked cfg .initLogin q.passphrase
  authCacheSeed (lit "system:config") token

/-- A copy of a string member, memory permitting. -/
def softStr (root : Json) (key : Bytes) : Cmd (Option Bytes) :=
  match root.getString key with
  | none => pure none
  | some s => do
    let ok ← alloc
    pure (if ok then some s else none)

/-- The info of an init reply; only its instance id must be copied. -/
def initInfo (instanceid : Bytes) (root : Json) : Cmd InitInfo := do
  need
  let copied ← alloc
  let csr ← softStr root (lit "csr")
  let genuine ← softStr root (lit "genuine")
  if copied then pure ⟨instanceid, csr, genuine, (root.getBool (lit "reboot_required")).getD false⟩
  else outOfMemory

/-- The info, for a caller that wants one. -/
def initOut (out : Bool) (instanceid : Bytes) (root : Json) : Cmd (Option InitInfo) :=
  if out then do
    let info ← initInfo instanceid root
    pure (some info)
  else pure none

/-- The commit: the token goes out, and what comes back opens the session. -/
def initCommit (q : InitStrings) (jwt : Bytes) (out : Bool) : Cmd (Option InitInfo) := do
  need
  let result ← (requestPlainJson cfg .post authInitPath (some (initBody jwt))).attempt
  match result with
  | .error rc => initExplain rc "commit"
  | .ok root =>
    match root.getString (lit "token"), root.getString (lit "instanceid") with
    | some token, some instanceid => do
      initSession cfg q token
      initOut out instanceid root
    | _, _ => ctxFail .protocol 200 none [.text authInitPath, txt ": init reply lacks token/instanceid"]

/-- From the challenge on. -/
def initAnswer (p : InitParams) (q : InitStrings) (out : Bool) (challenge : Json) :
    Cmd (Option InitInfo) :=
  match initChallenge challenge with
  | none =>
    ctxFail .protocol 0 none
      [.text authInitPath, txt ": malformed init challenge (need eid, spk, jti, exp)"]
  | some (eid, spk, jti, exp) =>
    match (b64StdDecode spk 32).filter (·.length = 32) with
    | none =>
      ctxFail .protocol 0 none
        [.text authInitPath, txt ": challenge spk is not a 32-byte X25519 key"]
    | some peer => do
      let jwt ← (initJwt cfg p q eid spk jti peer exp).attempt
      match jwt with
      | .error rc =>
        ctxFail (if rc = .nomem then .nomem else .protocol) 0 none
          [.text authInitPath, txt ": init credential derivation failed"]
      | .ok jwt => initCommit cfg q jwt out

/-- `ehem_device_init` with parameters that its caller stamped; `out` tells whether
the caller wants the info. -/
def deviceInit (p : InitParams) (out : Bool) : Cmd (Option InitInfo) := do
  clearError
  match initStrings p with
  | none =>
    ctxFail .arg 0 none [.text authInitPath,
      txt ": passphrase, master_secret, user, email, hostname and ip are required"]
  | some q =>
    if p.storageMode ≤ 0 ∨ p.storageDisk0size ≤ 0 then
      ctxFail .arg 0 none
        [.text authInitPath, txt ": storage_mode and storage_disk0size must be positive"]
    else do
      let init ← globalInit
      match init with
      | .error rc => ctxFail rc 0 none [.text authInitPath, txt ": process-global init failed"]
      | .ok _ => do
        let challenge ← (requestPlainJson cfg .get authInitPath none).attempt
        match challenge with
        | .error rc => initExplain rc "challenge"
        | .ok challenge => initAnswer cfg p q out challenge

end

end EncedoHem
