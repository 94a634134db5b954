import EncedoHem.Request

namespace EncedoHem
open Text Dialogue

structure CheckinInfo where
  status : Option Bytes
  newcrt : Option Bytes
  newfws : Option Bytes
  newuis : Option Bytes
  certUpdated : Bool
  newcrtChain : Option Bytes
  currentSerial : Option Bytes
  deriving DecidableEq, Repr

/-- A copy of an optional string member. -/
def optStr (root : Json) (key : Bytes) : Cmd (Option Bytes) :=
  match root.getString key with
  | none => pure none
  | some s => do
    need
    pure (some s)

/-- A string claim of the compact token that a check-in body carries. A body
without it is tolerated, and only memory can fail the harvest. -/
def harvestJwtClaim (envelope envKey claim : Bytes) : Cmd (Option Bytes) := do
  let env ← parseJson envelope
  match (env.bind (·.getString envKey)).bind middleSegment with
  | none => pure none
  | some seg =>
    if seg.length = 0 then pure none
    else do
      need
      match b64urlDecode seg seg.length with
      | none => pure none
      | some raw => do
        let payload ← parseJson raw
        match payload.bind (·.getString claim) with
        | none => pure none
        | some value => do
          need
          pure (some value)

def upperHex (n : Nat) : UInt8 := (lit "0123456789ABCDEF").getD n 48

/-- Uppercase hex of a serial number without its sign byte, as many bytes as fit. -/
def serialHex (serial : Bytes) : Bytes :=
  let bytes := match serial with
    | 0 :: b :: rest => b :: rest
    | s => s
  (bytes.take 33).flatMap fun b => [upperHex (b.toNat / 16), upperHex (b.toNat % 16)]

def harvestCurrentSerial (challenge : Bytes) : Cmd (Option Bytes) := do
  let csn ← harvestJwtClaim challenge (lit "check") (lit "csn")
  match csn.bind fun s => b64StdDecode s 64 with
  | none => pure none
  | some [] => pure none
  | some serial => do
    need
    pure (some (serialHex serial))

def parseCheckin (root : Json) : Cmd CheckinInfo := do
  need
  let status ← optStr root (lit "status")
  let newcrt ← optStr root (lit "newcrt")
  let newfws ← optStr root (lit "newfws")
  let newuis ← optStr root (lit "newuis")
  pure ⟨status, newcrt, newfws, newuis, newcrt.any (· ≠ []), none, none⟩

def checkinPath : Bytes := lit "/api/system/checkin"

section
variable (cfg : Config)

/-- A request without a scope inside a check-in calls neither the token engine
nor another check-in; in place of these calls stands one that is never made. -/
def leg (method : Method) (path : Bytes) (jsonBody : Option Bytes) (ov : TlsOverride) : Cmd Bytes :=
  requestRawWith cfg (fun _ => throwRc .arg) (throwRc .arg) method path jsonBody none ov

/-- How the device legs are verified. -/
def deviceOverride (relaxDeviceTls : Bool) : TlsOverride :=
  if relaxDeviceTls then .relax else .default

/-- The three legs: the device's challenge goes to the cloud as it came, and the
cloud's answer back to the device as it came. -/
def checkinLegs (relaxDeviceTls : Bool) : Cmd (Bytes × Bytes × Json) := do
  let challenge ← leg cfg .get checkinPath none (deviceOverride relaxDeviceTls)
  let verified ← leg cfg .post cfg.checkinUrl (some challenge) .verify
  let body ← leg cfg .post checkinPath (some verified) (deviceOverride relaxDeviceTls)
  let root ← parseBody checkinPath body
  pure (challenge, verified, root)

/-- The result for a caller that wants one, with what the legs delivered harvested. -/
def harvest (challenge verified : Bytes) (root : Json) : Cmd CheckinInfo := do
  let info ← parseCheckin root
  let chain ← harvestJwtClaim verified (lit "checked") (lit "newcrt")
  let serial ← harvestCurrentSerial challenge
  pure { info with newcrtChain := chain, currentSerial := serial }

def Ctx.setInCheckin (s : Ctx) (b : Bool) : Ctx := { s with inCheckin := b }

/-- Raise the recursion guard around `x`. -/
def guardCheckin {α : Type} (why : CheckinReason) (x : Cmd α) : Cmd α := do
  mark (.checkin why)
  modifyCtx (·.setInCheckin true)
  let r ← x.attempt
  modifyCtx (·.setInCheckin false)
  mark .checkinDone
  match r with
  | .ok a => pure a
  | .error rc => throwRc rc

/-- `ehem_checkin_run` without an `out`, with the reason it was started for. -/
def checkinRun (why : CheckinReason) (relaxDeviceTls : Bool) : Cmd Unit :=
  guardCheckin why do
    let _ ← checkinLegs cfg relaxDeviceTls
    pure ()

/-- `ehem_checkin_run` with an `out`. -/
def checkinRunInfo (why : CheckinReason) (relaxDeviceTls : Bool) : Cmd CheckinInfo :=
  guardCheckin why do
    let (challenge, verified, root) ← checkinLegs cfg relaxDeviceTls
    harvest challenge verified root

/-- The end of `ehem_checkin_run` over the caller's `*out`: the result is written to it, and taken
back where the harvest fails. -/
def deliver (challenge verified : Bytes) (root : Json) (out : Option CheckinInfo) :
    Cmd (Except Rc Unit × Option CheckinInfo) := do
  let r ← (parseCheckin root).attempt
  match r with
  | .error rc => pure (.error rc, out)
  | .ok info => do
    let chain ← (harvestJwtClaim verified (lit "checked") (lit "newcrt")).attempt
    match chain with
    | .error rc => pure (.error rc, none)
    | .ok chain => do
      let serial ← (harvestCurrentSerial challenge).attempt
      match serial with
      | .error rc => pure (.error rc, none)
      | .ok serial => pure (.ok (), some { info with newcrtChain := chain, currentSerial := serial })

/-- The check-in that each of the recoveries starts. -/
def recoveryCheckin : Cmd Unit := checkinRun cfg .recovery true

/-- `ehem_proto_request_raw` for a request without a scope, which never calls
the token engine. -/
def requestPlain (method : Method) (path : Bytes) (jsonBody : Option Bytes) (ov : TlsOverride) :
    Cmd Bytes :=
  requestRawWith cfg (fun _ => throwRc .arg) (recoveryCheckin cfg) method path jsonBody none ov

/-- `ehem_proto_request_json` for a request without a scope. -/
def requestPlainJson (method : Method) (path : Bytes) (jsonBody : Option Bytes) : Cmd Json := do
  let body ← requestPlain cfg method path jsonBody .default
  parseBody path body

end

end EncedoHem
