import EncedoHem.System

namespace EncedoHem
open Text Dialogue

structure ExtInitInfo where
  request : Bytes
  eid : Bytes
  deriving DecidableEq, Repr

structure ExtValidateInfo where
  kid : Bytes
  code : Bytes
  deriving DecidableEq, Repr

structure ExtMacInfo where
  nonce : Bytes
  mac : Bytes
  eid : Bytes
  deriving DecidableEq, Repr

def extPairScope : Bytes := lit "auth:ext:pair"

namespace Api
variable {cfg : Config}

/-- Pairing fails fast in mobile mode, before a push is sent in vain. -/
def needPassphraseSession (what : String) : Api cfg Unit := do
  let mobile ← authIsMobile
  if mobile then
    ctxFail .scopeDenied 0 none
      [txt what, txt ": pairing requires a passphrase session - the device demands sub=\"U\" and mobile bearers carry the authenticator kid; call ehem_login() (no push was sent)"]
  else pure ()

def checkEpk (what : String) (epk : Bytes) : Api cfg Unit :=
  if isB64Of32 epk then pure ()
  else ctxFail .arg 0 none [txt what, txt ": epk must be standard base64 of exactly 32 bytes"]

def extInit (epk : Bytes) : Api cfg ExtInitInfo := do
  clearError
  needPassphraseSession "ext/init"
  checkEpk "ext/init" epk
  let body ← printObject [(lit "epk", .str epk)]
  let root ← requestJson .post (lit "auth/ext/init") (some body) (some extPairScope)
  need
  let request ← reqStr root (lit "auth/ext/init") (lit "request")
  let eid ← reqStr root (lit "auth/ext/init") (lit "eid")
  pure ⟨request, eid⟩

/-- A 406 of the import, explained whatever code it came with. -/
def explainImport {α : Type} (rc : Rc) : Api cfg α := do
  let s ← getCtx
  if s.lastError.httpStatus = 406 then
    ctxFail .device 406 none
      [txt "auth/ext/validate: import refused (406) - ExtAuth slots full (max 8) or this authenticator key is already paired"]
  else throwRc rc

def parseValidate (root : Json) : Api cfg ExtValidateInfo := do
  need
  let kid ← reqStr root (lit "auth/ext/validate") (lit "kid")
  let code ← reqStr root (lit "auth/ext/validate") (lit "code")
  pure ⟨kid, code⟩

def extValidate (pid reply : Bytes) : Api cfg ExtValidateInfo := do
  clearError
  needPassphraseSession "ext/validate"
  if ¬isB64Of32 pid then
    ctxFail .arg 0 none
      [txt "ext/validate: pid must be standard base64 of exactly 32 bytes (the device stores the decoded pid as a fixed 32-byte descriptor suffix)"]
  else if reply = [] then ctxFail .arg 0 none [txt "ext/validate: reply JWT is empty"]
  else do
    let body ← printObject [(lit "pid", .str pid), (lit "reply", .str reply)]
    let r ← (requestJson .post (lit "auth/ext/validate") (some body) (some extPairScope)).attempt
    match r with
    | .error rc => explainImport rc
    | .ok root => parseValidate root

def extMac (epk : Bytes) : Api cfg ExtMacInfo := do
  clearError
  needPassphraseSession "ext/mac"
  checkEpk "ext/mac" epk
  let body ← printObject [(lit "epk", .str epk)]
  let root ← requestJson .post (lit "auth/ext/mac") (some body) (some extPairScope)
  need
  let nonce ← reqStr root (lit "auth/ext/mac") (lit "nonce")
  let mac ← reqStr root (lit "auth/ext/mac") (lit "mac")
  let eid ← reqStr root (lit "auth/ext/mac") (lit "eid")
  pure ⟨nonce, mac, eid⟩

end Api

end EncedoHem
