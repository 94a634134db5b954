import EncedoHem.Lib.Block
import EncedoHem.Api

namespace EncedoHem
open Text Dialogue

/-- The bytes of a SHA-256 tag. -/
def sha256Size : Nat := 32

/-- Both segments and the dot between them, put into the token's block one after the other. -/
def joinSegments (jwt : Block UInt8) (h p : Bytes) : Option (Block UInt8) := do
  let jwt ← jwt.write 0 h
  let jwt ← jwt.write h.length (lit ".")
  jwt.write (h.length + 1) p

/-- The dot and the tag, with the closing zero that the encoder writes, after the signed part. -/
def closeToken (jwt : Block UInt8) (signLen : Nat) (tag : Bytes) : Option (Block UInt8) := do
  let jwt ← jwt.write signLen (lit ".")
  jwt.write (signLen + 1) (tag ++ [0])

/-- `sign_compact` over the block it allocates; `none` where a write would leave the block or
something would be read that has not been written. -/
def signCompactAt (header payload key : Bytes) : Cmd (Option (Block UInt8)) := do
  needQuiet
  match b64urlEncode header 256, b64urlEncode payload (b64urlEncodedLen payload.length + 1) with
  | some h, some p => do
    let signLen := h.length + 1 + p.length
    let sigLen := b64urlEncodedLen sha256Size
    needQuiet
    let jwt := joinSegments (Block.fresh (signLen + 1 + sigLen + 1)) h p
    match jwt, jwt.bind (·.read signLen) with
    | some jwt, some input => do
      let mac ← hmacSha256 key input
      let mac ← liftRc mac
      match b64urlEncode mac (sigLen + 1) with
      | some tag => pure (closeToken jwt signLen tag)
      | none => throwRc .protocol
    | _, _ => pure none
  | _, _ => throwRc .protocol

/-- `ehem_ejwt_sign`; what fails leaves no token. -/
def ejwtSign (headerJson payloadJson : Option Bytes) (key : Buf) : Cmd (Option (Block UInt8)) :=
  match headerJson, payloadJson with
  | some header, some payload =>
    if key.isNull ∨ key.len = 0 then throwRc .arg else signCompactAt header payload key.bytes
  | _, _ => throwRc .arg

end EncedoHem
