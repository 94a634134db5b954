import EncedoHem.Api

namespace EncedoHem
open Text Dialogue

structure StatusInfo where
  ctx : Int
  flsState : Int
  uptime : Int
  temp : Double.Dbl
  ts : Option Bytes
  hostname : Option Bytes
  format : Option Bytes
  time : Option Int
  fwUpgrade : Option Bool
  inited : Option Bool
  https : Option Bool
  tts : Option Bool
  storage : List Bytes
  deriving DecidableEq, Repr

structure VersionInfo where
  hwv : Bytes
  fwv : Bytes
  blv : Option Bytes
  fwk : Option Bytes
  fws : Option Bytes
  blk : Option Bytes
  bls : Option Bytes
  uis : Option Bytes
  sdCsd : Option Bytes
  sdCid : Option Bytes
  deriving DecidableEq, Repr

structure ConfigInfo where
  devid : Bytes
  hostname : Bytes
  user : Bytes
  email : Option Bytes
  eid : Option Bytes
  instanceid : Option Bytes
  origin : Option Bytes
  ip : Option Bytes
  genuineId : Option Bytes
  iat : Option Int
  uts : Option Int
  ctx : Option Int
  storageMode : Option Int
  storageDisk0size : Option Int
  storageCapacity : Option Int
  dnsd : Option Bool
  trustedTs : Option Bool
  trustedBackend : Option Bool
  allowKeysearch : Option Bool
  httpHsts : Option Bool
  deriving DecidableEq, Repr

structure CertInstallInfo where
  updated : Bool
  rebootRequired : Bool
  deriving DecidableEq, Repr

structure SelftestInfo where
  flsState : Int
  selftestTs : Int
  lastSelftestTs : Int
  lastFlsState : Int
  lastEntropytestTs : Int
  lastKatTs : Int
  katBusy : Bool
  seState : Int
  repoTotal : Int
  repoDeleted : Int
  repoInvalid : Int
  repoFragmented : Int
  repoFreeslots : Int
  deriving DecidableEq, Repr

def systemConfigScope : Bytes := lit "system:config"
def systemShutdownScope : Bytes := lit "system:shutdown"

namespace Api
variable {cfg : Config}

/-- A required member of an answer that is not there. -/
def missingField {α : Type} (what : String) (field : String) : Api cfg α :=
  ctxFail .protocol 200 none [txt what, txt ": missing required field '", txt field, txt "'"]

/-- A required string member, copied. -/
def fieldStr (root : Json) (what field : String) : Api cfg Bytes :=
  match root.getString (lit field) with
  | none => missingField what field
  | some s => do
    need
    pure s

def fieldInt (root : Json) (what field : String) : Api cfg Int :=
  match root.getInt64 (lit field) with
  | none => missingField what field
  | some n => pure n

/-- Copies of the strings of a list; other elements are skipped. -/
def copyStrings : List Json → Api cfg (List Bytes)
  | [] => pure []
  | j :: rest =>
    match j.asString with
    | none => copyStrings rest
    | some s => do
      need
      let more ← copyStrings rest
      pure (s :: more)

def statusStorage (root : Json) : Api cfg (List Bytes) :=
  match ((root.get (lit "storage")).filter (·.isArray)).map (·.elements) with
  | none => pure []
  | some [] => pure []
  | some js => do
    need
    copyStrings js

def parseStatus (root : Json) : Api cfg StatusInfo := do
  need
  let ctx ← fieldInt root "system/status" "ctx"
  let fls ← fieldInt root "system/status" "fls_state"
  let uptime ← fieldInt root "system/status" "uptime"
  match root.getDouble (lit "temp") with
  | none => missingField "system/status" "temp"
  | some temp => do
    let ts ← optStr root (lit "ts")
    let hostname ← optStr root (lit "hostname")
    let format ← optStr root (lit "format")
    let storage ← statusStorage root
    pure ⟨ctx, fls, uptime, temp, ts, hostname, format, root.getInt64 (lit "time"),
      root.getBool (lit "fw_upgrade"), root.getBool (lit "inited"), root.getBool (lit "https"),
      root.getBool (lit "tts"), storage⟩

def systemStatus : Api cfg StatusInfo := do
  clearError
  let root ← requestJson .get (lit "system/status") none none
  parseStatus root

def parseVersion (root : Json) : Api cfg VersionInfo := do
  need
  let hwv ← fieldStr root "system/version" "hwv"
  let fwv ← fieldStr root "system/version" "fwv"
  let blv ← optStr root (lit "blv")
  let fwk ← optStr root (lit "fwk")
  let fws ← optStr root (lit "fws")
  let blk ← optStr root (lit "blk")
  let bls ← optStr root (lit "bls")
  let uis ← optStr root (lit "uis")
  let csd ← optStr root (lit "sd_csd")
  let cid ← optStr root (lit "sd_cid")
  pure ⟨hwv, fwv, blv, fwk, fws, blk, bls, uis, csd, cid⟩

def systemVersion : Api cfg VersionInfo := do
  clearError
  let root ← requestJson .get (lit "system/version") none none
  parseVersion root

def parseConfig (root : Json) : Api cfg ConfigInfo := do
  need
  let devid ← fieldStr root "system/config" "devid"
  let hostname ← fieldStr root "system/config" "hostname"
  let user ← fieldStr root "system/config" "user"
  let email ← optStr root (lit "email")
  let eid ← optStr root (lit "eid")
  let instanceid ← optStr root (lit "instanceid")
  let origin ← optStr root (lit "origin")
  let ip ← optStr root (lit "ip")
  let genuineId ← optStr root (lit "genuine_id")
  pure ⟨devid, hostname, user, email, eid, instanceid, origin, ip, genuineId,
    root.getInt64 (lit "iat"), root.getInt64 (lit "uts"), root.getInt64 (lit "ctx"),
    root.getInt64 (lit "storage_mode"), root.getInt64 (lit "storage_disk0size"),
    root.getInt64 (lit "storage_capacity"), root.getBool (lit "dnsd"),
    root.getBool (lit "trusted_ts"), root.getBool (lit "trusted_backend"),
    root.getBool (lit "allow_keysearch"), root.getBool (lit "http_option_hsts")⟩

def systemConfig : Api cfg ConfigInfo := do
  clearError
  let root ← requestJson .get (lit "system/config") none (some systemConfigScope)
  parseConfig root

/-- The outcome of an installation, for a caller that wants it. -/
def installInfo (out : Bool) (root : Json) : Api cfg (Option CertInstallInfo) :=
  if out then do
    need
    pure (some ⟨(root.getBool (lit "updated")).getD false,
      (root.getBool (lit "reboot_required")).getD false⟩)
  else pure none

def systemConfigInstallCert (crtB64 : Bytes) (out : Bool) : Api cfg (Option CertInstallInfo) := do
  clearError
  let body ← printObject [(lit "tls", .obj [(lit "crt", .str crtB64)])]
  let root ← requestJson .post (lit "system/config") (some body) (some systemConfigScope)
  installInfo out root

/-- The outcome of a request whose success is an empty 200, which the shared path
reports as a protocol error with that status. -/
def emptyOk (r : Except Rc Bytes) (status : Int) : Except Rc Unit :=
  match r with
  | .ok _ => .ok ()
  | .error .protocol => if status = 200 then .ok () else .error .protocol
  | .error rc => .error rc

/-- A request read that way; what success does comes after it. -/
def requestEmpty (method : Method) (path : Bytes) (body scope : Option Bytes) :
    Api cfg (Except Rc Unit) := do
  let r ← (requestRaw method path body scope).attempt
  let s ← getCtx
  pure (emptyOk r s.lastError.httpStatus)

/-- What a request that stops the device's services ends in: every token the device
issued is void. -/
def dropTokens : Except Rc Unit → Api cfg Unit
  | .error rc => throwRc rc
  | .ok _ => do
    authInvalidateAll
    clearError

def systemReboot : Api cfg Unit := do
  clearError
  let r ← requestEmpty .get (lit "system/reboot") none (some systemConfigScope)
  dropTokens r

def systemShutdown : Api cfg Unit := do
  clearError
  let r ← requestEmpty .get (lit "system/shutdown") none (some systemShutdownScope)
  dropTokens r

def wipeoutBody : Bytes := lit "\x7b\"wipeout\":true\x7d"

/-- A wiped device knows no key and no token any more. -/
def systemWipeout : Api cfg Unit := do
  clearError
  let r ← requestEmpty .post (lit "system/config") (some wipeoutBody) (some systemConfigScope)
  match r with
  | .error rc => throwRc rc
  | .ok _ => logout

def parseSelftest (root : Json) : Api cfg SelftestInfo := do
  need
  match root.getInt64 (lit "fls_state") with
  | none => ctxFail .protocol 200 none [txt "system/selftest: response missing 'fls_state'"]
  | some fls =>
    let n := fun (key : String) => (root.getInt64 (lit key)).getD 0
    let stat := fun (key : String) =>
      ((root.get (lit "repo_stats")).bind (·.getInt64 (lit key))).getD (-1)
    pure ⟨fls, n "selftest_ts", n "last_selftest_ts", n "last_fls_state", n "last_entropytest_ts",
      n "last_kat_ts", (root.getBool (lit "kat_busy")).getD false,
      (root.getInt64 (lit "se_state")).getD (-1), stat "total", stat "deleted", stat "invalid",
      stat "fragmented", stat "freeslots"⟩

def systemSelftest : Api cfg SelftestInfo := do
  clearError
  let root ← requestJson .get (lit "system/selftest") none (some systemConfigScope)
  parseSelftest root

/-- The bundle goes to the device as it came, in the place of a member's value. -/
def spliceBundle (bundle : Bytes) : Bytes := lit "\x7b\"tls\":" ++ bundle ++ lit "\x7d"

end Api

end EncedoHem
