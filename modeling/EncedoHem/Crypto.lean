import EncedoHem.KeyMgmt

namespace EncedoHem
open Text Dialogue

def signMsgMax : Nat := 2048
def signSigCtxMax : Nat := 255
def verifySigMax : Nat := 148
def ecdhPubkeyMax : Nat := 67
def hmacMacMax : Nat := 64
def cipherMsgMax : Nat := 2048
def cipherCtMax : Nat := 2064
def cipherAadMax : Nat := 16
def cipherIvLen : Nat := 16
def cipherTagLen : Nat := 16
def cipherHkdfCtxMax : Nat := 64
def wrapIvLen : Nat := 8
def wrapMsgMax : Nat := 2048
def mlkemSsLen : Nat := 32
def mlkemCtMax : Nat := 1568
def mldsaSigMax : Nat := 4627
def pqcAlgSize : Nat := 16

structure Ciphertext where
  ciphertext : Bytes
  iv : Option Bytes
  tag : Option Bytes
  deriving DecidableEq, Repr

structure MlkemEncapsResult where
  ct : Bytes
  ss : Bytes
  alg : Bytes
  deriving DecidableEq, Repr

structure MlkemSecret where
  ss : Bytes
  alg : Bytes
  deriving DecidableEq, Repr

structure MldsaSignature where
  sig : Bytes
  alg : Bytes
  deriving DecidableEq, Repr

/-- The selection of an ECDH peer: a key of the device or a public key. -/
structure Peer where
  extKid : Option Bytes
  pubkey : Buf
  deriving DecidableEq, Repr

def Peer.none : Peer := ⟨Option.none, .null 0⟩

/-- A public key counts as given by its pointer or by its length. -/
def Peer.havePub (p : Peer) : Bool := !p.pubkey.isNull || decide (p.pubkey.len ≠ 0)

def Peer.given (p : Peer) : Bool := p.extKid.isSome || p.havePub

/-- `add_peer_fields`. -/
def Peer.members (p : Peer) : List (Bytes × Json) :=
  optStrMember "ext_kid" p.extKid ++ optB64Member "pubkey" p.pubkey

/-- The buffer is null with a length. -/
def Buf.bogus (b : Buf) : Bool := b.isNull && decide (b.len ≠ 0)

/-- The buffer is given, by its pointer or by its length, and is not of this length. -/
def Buf.notExactly (b : Buf) (n : Nat) : Bool :=
  (!b.isNull || decide (b.len ≠ 0)) && (b.isNull || decide (b.len ≠ n))

/-- A buffer of optional material is longer than `n`, or null with a length. -/
def Buf.over (b : Buf) (n : Nat) : Bool := b.bogus || decide (n < b.len)

/-- The member of a buffer that is given, empty or not. -/
def b64MemberOf (key : String) (b : Buf) : List (Bytes × Json) :=
  if b.isNull then [] else b64Member key b.bytes

namespace Api
variable {cfg : Config}

/-- A refused argument: nothing is sent. -/
def refuse {α : Type} (what : Bytes) (why : List Piece) : Api cfg α :=
  ctxFail .arg 0 none (.text what :: why)

/-- `check_peer_args`: exactly one peer, or none where that is allowed. -/
def checkPeerArgs (what : Bytes) (p : Peer) (allowNone : Bool) : Api cfg Unit :=
  if p.extKid.isSome ∧ p.havePub then refuse what [txt ": give either ext_kid or pubkey, not both"]
  else if ¬p.given ∧ ¬allowNone then refuse what [txt ": a peer is required (ext_kid or pubkey)"]
  else if p.extKid.any (¬isKidHex ·) then
    refuse what [txt ": ext_kid must be exactly 32 hex chars"]
  else if p.havePub ∧ (p.pubkey.isNull ∨ p.pubkey.len < 1 ∨ ecdhPubkeyMax < p.pubkey.len) then
    refuse what [txt ": pubkey must be 1..", num ecdhPubkeyMax, txt " bytes"]
  else pure ()

def checkKid (what : Bytes) (kid : Bytes) : Api cfg Unit :=
  if isKidHex kid then pure () else refuse what [txt ": kid must be exactly 32 hex chars"]

def notEmpty (what : Bytes) (name : String) (suffix : String) (alg : Bytes) : Api cfg Unit :=
  if alg = [] then refuse what [txt (": " ++ name ++ " must be non-empty" ++ suffix)] else pure ()

/-- The message has between one and `max` bytes. -/
def checkSize (what : Bytes) (name : String) (b : Bytes) (max : Nat) (more : String) : Api cfg Unit :=
  if b.length < 1 ∨ max < b.length then
    refuse what [txt (": " ++ name ++ " must be 1.."), num max, txt (" bytes" ++ more)]
  else pure ()

/-- Optional material of at most `max` bytes. -/
def checkAtMost (what : Bytes) (name : String) (b : Buf) (max : Nat) : Api cfg Unit :=
  if b.over max then refuse what [txt (": " ++ name ++ " must be at most "), num max, txt " bytes"]
  else pure ()

/-- Material of an exact length, where it is given. -/
def checkExactly (what : Bytes) (name : String) (b : Buf) (n : Nat) : Api cfg Unit :=
  if b.notExactly n then
    refuse what [txt (": " ++ name ++ " must be exactly "), num n, txt " bytes when given"]
  else pure ()

/-- A required member in base64 that decodes to something. -/
def answeredB64 (root : Json) (what : Bytes) (key : String) : Api cfg Bytes :=
  match (root.getString (lit key)).filter (· ≠ []) with
  | none => ctxFail .protocol 200 none [.text what, txt ": response missing '", txt key, txt "'"]
  | some s => do
    need
    match (b64StdDecode s s.length).filter (· ≠ []) with
    | none => ctxFail .protocol 200 none [.text what, txt ": '", txt key, txt "' is not valid base64"]
    | some b => pure b

/-- The answer to a request for the use of a key. -/
def useKey (path : String) (kid body : Bytes) : Api cfg Json :=
  requestJson .post (lit path) (some body) (some (useScope kid))

def sign (kid alg msg : Bytes) (sigCtx : Buf) : Api cfg Bytes := do
  clearError
  let what := lit "crypto/sign"
  checkKid what kid
  notEmpty what "alg" "" alg
  checkSize what "msg" msg signMsgMax " (the device rejects an empty message)"
  checkAtMost what "sig_ctx" sigCtx signSigCtxMax
  let body ← printObject (strMember "kid" kid ++ b64Member "msg" msg ++ strMember "alg" alg ++
    optB64Member "ctx" sigCtx)
  let root ← useKey "crypto/exdsa/sign" kid body
  answeredB64 root what "sign"

/-- What the verdict of a verification comes to; the success is made clean. -/
def verified (r : Except Rc Unit) : Api cfg Unit :=
  match r with
  | .ok _ => clearError
  | .error rc => throwRc rc

def verify (kid alg msg : Bytes) (sigCtx : Buf) (sig : Bytes) : Api cfg Unit := do
  clearError
  let what := lit "crypto/verify"
  checkKid what kid
  notEmpty what "alg" "" alg
  checkSize what "msg" msg signMsgMax ""
  checkSize what "sig" sig verifySigMax ""
  checkAtMost what "sig_ctx" sigCtx signSigCtxMax
  let body ← printObject (strMember "kid" kid ++ b64Member "msg" msg ++ b64Member "sign" sig ++
    strMember "alg" alg ++ optB64Member "ctx" sigCtx)
  let r ← requestEmpty .post (lit "crypto/exdsa/verify") (some body) (some (useScope kid))
  verified r

def ecdh (kid : Bytes) (peer : Peer) (alg : Option Bytes) : Api cfg Bytes := do
  clearError
  let what := lit "crypto/ecdh"
  checkKid what kid
  checkPeerArgs what peer false
  if alg = some [] then refuse what [txt ": alg must be non-empty when given"]
  else do
    let body ← printObject (strMember "kid" kid ++ peer.members ++ optStrMember "alg" alg)
    let root ← useKey "crypto/ecdh" kid body
    answeredB64 root what "ecdh"

/-- `hmac_build`: a mac makes it the body of a verification. -/
def hmacBuild (what kid : Bytes) (alg : Option Bytes) (msg : Bytes) (mac : Option Bytes) (peer : Peer) :
    Api cfg Bytes := do
  checkKid what kid
  checkSize what "msg" msg signMsgMax ""
  match mac with
  | none => pure ()
  | some m => checkSize what "mac" m hmacMacMax ""
  checkPeerArgs what peer true
  if alg = none ∧ peer.given then refuse what [txt ": alg is required in the ECDH-derived flow"]
  else if alg = some [] then refuse what [txt ": alg must be non-empty when given"]
  else printObject (strMember "kid" kid ++ b64Member "msg" msg ++
    (mac.elim [] (b64Member "mac")) ++ optStrMember "alg" alg ++ peer.members)

def hmac (kid : Bytes) (alg : Option Bytes) (msg : Bytes) (peer : Peer) : Api cfg Bytes := do
  clearError
  let what := lit "crypto/hmac/hash"
  let body ← hmacBuild what kid alg msg none peer
  let root ← useKey "crypto/hmac/hash" kid body
  answeredB64 root what "mac"

def hmacVerify (kid : Bytes) (alg : Option Bytes) (msg mac : Bytes) (peer : Peer) : Api cfg Unit := do
  clearError
  let body ← hmacBuild (lit "crypto/hmac/verify") kid alg msg (some mac) peer
  let r ← requestEmpty .post (lit "crypto/hmac/verify") (some body) (some (useScope kid))
  verified r

structure CipherArgs where
  kid : Bytes
  alg : Bytes
  msg : Bytes
  iv : Buf
  tag : Buf
  aad : Buf
  peer : Peer
  hkdfCtx : Buf
  deriving DecidableEq, Repr

/-- `cipher_build`. -/
def cipherBuild (what : Bytes) (msgMax : Nat) (a : CipherArgs) : Api cfg Bytes := do
  checkKid what a.kid
  if a.alg.length ≠ 10 then refuse what [txt ": alg must be one of the 10-char AES selectors"]
  else do
    checkSize what "msg" a.msg msgMax ""
    checkExactly what "iv" a.iv cipherIvLen
    checkExactly what "tag" a.tag cipherTagLen
    checkAtMost what "aad" a.aad cipherAadMax
    checkPeerArgs what a.peer true
    checkAtMost what "hkdf_ctx" a.hkdfCtx cipherHkdfCtxMax
    printObject (strMember "kid" a.kid ++ b64Member "msg" a.msg ++ strMember "alg" a.alg ++
      b64MemberOf "iv" a.iv ++ b64MemberOf "tag" a.tag ++ optB64Member "aad" a.aad ++
      a.peer.members ++ optB64Member "ctx" a.hkdfCtx)

/-- `decode_fixed_field`: a member that may be missing; `none` is a malformed one. -/
def decodeFixedField (root : Json) (name : String) (want : Nat) : Option (Option Bytes) :=
  match (root.getString (lit name)).filter (· ≠ []) with
  | none => some none
  | some s =>
    match (b64StdDecode s 32).filter (·.length = want) with
    | none => none
    | some b => some (some b)

def malformedCipher {α : Type} : Api cfg α :=
  ctxFail .protocol 200 none [txt "crypto/cipher/encrypt: malformed response field"]

/-- The answer of the cipher, with whatever the mode delivers beside it. -/
def parseCiphertext (root : Json) : Api cfg Ciphertext :=
  match (root.getString (lit "ciphertext")).filter (· ≠ []) with
  | none => ctxFail .protocol 200 none [txt "crypto/cipher/encrypt: response missing 'ciphertext'"]
  | some s => do
    need
    match (b64StdDecode s s.length).filter (· ≠ []), decodeFixedField root "iv" cipherIvLen,
        decodeFixedField root "tag" cipherTagLen with
    | some ct, some iv, some tag => pure ⟨ct, iv, tag⟩
    | _, _, _ => malformedCipher

def encrypt (kid alg msg : Bytes) (aad : Buf) (peer : Peer) (hkdfCtx : Buf) : Api cfg Ciphertext := do
  clearError
  let body ← cipherBuild (lit "crypto/cipher/encrypt") cipherMsgMax
    ⟨kid, alg, msg, .null 0, .null 0, aad, peer, hkdfCtx⟩
  let root ← useKey "crypto/cipher/encrypt" kid body
  parseCiphertext root

/-- An empty plaintext is one. -/
def parsePlaintext (root : Json) : Api cfg Bytes :=
  match root.getString (lit "plaintext") with
  | none => ctxFail .protocol 200 none [txt "crypto/cipher/decrypt: response missing 'plaintext'"]
  | some s => do
    need
    if s = [] then pure []
    else match b64StdDecode s s.length with
      | none =>
        ctxFail .protocol 200 none [txt "crypto/cipher/decrypt: 'plaintext' is not valid base64"]
      | some b => pure b

def decrypt (a : CipherArgs) : Api cfg Bytes := do
  clearError
  let body ← cipherBuild (lit "crypto/cipher/decrypt") cipherCtMax a
  let root ← useKey "crypto/cipher/decrypt" a.kid body
  parsePlaintext root

structure WrapArgs where
  kid : Bytes
  alg : Option Bytes
  msg : Buf
  peer : Peer
  hkdfCtx : Buf
  iv : Buf
  deriving DecidableEq, Repr

def wrapAlgs : List Bytes := [lit "AES128", lit "AES192", lit "AES256"]

/-- `build_wrap_body`. -/
def buildWrapBody (what : Bytes) (a : WrapArgs) : Api cfg Bytes := do
  checkKid what a.kid
  if a.msg.isNull ∨ a.msg.len < 1 ∨ wrapMsgMax < a.msg.len then
    refuse what [txt ": msg must be 1..", num wrapMsgMax, txt " bytes"]
  else if a.alg.any (fun alg => !wrapAlgs.contains alg) then
    refuse what [txt ": alg must be AES128, AES192 or AES256"]
  else do
    checkPeerArgs what a.peer true
    checkAtMost what "hkdf_ctx" a.hkdfCtx cipherHkdfCtxMax
    checkExactly what "iv" a.iv wrapIvLen
    printObject (strMember "kid" a.kid ++ b64Member "msg" a.msg.bytes ++ optStrMember "alg" a.alg ++
      a.peer.members ++ optB64Member "ctx" a.hkdfCtx ++ b64MemberOf "iv" a.iv)

/-- Wrapping and unwrapping differ in their names alone. -/
def wrapRequest (path field : String) (a : WrapArgs) : Api cfg Bytes := do
  clearError
  let body ← buildWrapBody (lit path) a
  need
  let root ← useKey path a.kid body
  answeredB64 root (lit "/api/" ++ lit path) field

def wrap (a : WrapArgs) : Api cfg Bytes := wrapRequest "crypto/cipher/wrap" "wrapped" a

def unwrap (a : WrapArgs) : Api cfg Bytes := wrapRequest "crypto/cipher/unwrap" "unwrapped" a

/-- The name of the algorithm as it fits its buffer. -/
def copyAlg (root : Json) : Bytes := ((root.getString (lit "alg")).getD []).take (pqcAlgSize - 1)

/-- `decode_ss`: the 32-byte shared secret. -/
def decodeSs (root : Json) : Option Bytes :=
  (((root.getString (lit "ss")).filter (· ≠ [])).bind (b64StdDecode · (mlkemSsLen + 4))).filter
    (·.length = mlkemSsLen)

def mlkemEncaps (kid : Bytes) : Api cfg MlkemEncapsResult := do
  clearError
  checkKid (lit "crypto/mlkem/encaps") kid
  let body ← printObject (strMember "kid" kid)
  let root ← useKey "crypto/pqc/mlkem/encaps" kid body
  match (root.getString (lit "ct")).filter (· ≠ []) with
  | none => ctxFail .protocol 200 none [txt "crypto/mlkem/encaps: response missing 'ct'"]
  | some s => do
    need
    match (b64StdDecode s s.length).filter (· ≠ []), decodeSs root with
    | some ct, some ss => pure ⟨ct, ss, copyAlg root⟩
    | _, _ => ctxFail .protocol 200 none [txt "crypto/mlkem/encaps: malformed 'ct'/'ss'"]

def mlkemDecaps (kid ct : Bytes) : Api cfg MlkemSecret := do
  clearError
  let what := lit "crypto/mlkem/decaps"
  checkKid what kid
  checkSize what "ct" ct mlkemCtMax " (the key's set demands its exact size)"
  let body ← printObject (strMember "kid" kid ++ b64Member "ct" ct)
  let root ← useKey "crypto/pqc/mlkem/decaps" kid body
  need
  match decodeSs root with
  | none => ctxFail .protocol 200 none [txt "crypto/mlkem/decaps: response missing/bad 'ss'"]
  | some ss => pure ⟨ss, copyAlg root⟩

/-- `mldsa_build`: a signature makes it the body of a verification. -/
def mldsaBuild (what kid msg : Bytes) (sig : Option Bytes) (sigCtx : Buf) : Api cfg Bytes := do
  checkKid what kid
  checkSize what "msg" msg signMsgMax ""
  match sig with
  | none => pure ()
  | some s => checkSize what "sig" s mldsaSigMax ""
  checkAtMost what "sig_ctx" sigCtx signSigCtxMax
  printObject (strMember "kid" kid ++ b64Member "msg" msg ++ (sig.elim [] (b64Member "sign")) ++
    optB64Member "ctx" sigCtx)

def mldsaSign (kid msg : Bytes) (sigCtx : Buf) : Api cfg MldsaSignature := do
  clearError
  let what := lit "crypto/mldsa/sign"
  let body ← mldsaBuild what kid msg none sigCtx
  let root ← useKey "crypto/pqc/mldsa/sign" kid body
  let sig ← answeredB64 root what "sign"
  pure ⟨sig, copyAlg root⟩

/-- A failed verification may put a raw error code in the status line, which the
shared path takes for a protocol error. -/
def mldsaVerdict (r : Except Rc Unit) : Api cfg Unit := do
  let s ← getCtx
  match r with
  | .ok _ => clearError
  | .error .protocol =>
    if s.lastError.httpStatus ≠ 0 then
      ctxFail .device s.lastError.httpStatus none
        [txt "crypto/mldsa/verify: device reported failure (raw status ",
          num s.lastError.httpStatus, txt " - fw v1.2.2 emits its crypto error code here)"]
    else throwRc .protocol
  | .error rc => throwRc rc

def mldsaVerify (kid msg : Bytes) (sigCtx : Buf) (sig : Bytes) : Api cfg Unit := do
  clearError
  let body ← mldsaBuild (lit "crypto/mldsa/verify") kid msg (some sig) sigCtx
  let r ← requestEmpty .post (lit "crypto/pqc/mldsa/verify") (some body) (some (useScope kid))
  mldsaVerdict r

def noIv {α : Type} : Api cfg α :=
  ctxFail .protocol 200 none [txt "crypto/random: encrypt response carried no iv"]

/-- A write to the caller's buffer. -/
structure Store where
  offset : Nat
  bytes : Bytes
  deriving DecidableEq, Repr

/-- `ehem_zeroize` of the first `n` bytes. -/
def zeroize (n : Nat) : Store := ⟨0, List.replicate n 0⟩

/-- The loop of `ehem_random` with the writes made so far: every round takes what it can
of a fresh device IV, and a failure wipes what was filled. -/
def randomLoop (kid : Bytes) (len : Nat) : Nat → Nat → List Store → Api cfg (Except Rc Unit × List Store)
  | 0, _, ws => pure (.ok (), ws)
  | rounds + 1, filled, ws =>
    if len ≤ filled then pure (.ok (), ws)
    else do
      let r ← (encrypt kid (lit "AES128-CBC") [0] (.null 0) .none (.null 0)).attempt
      match r with
      | .error rc => pure (.error rc, ws ++ [zeroize filled])
      | .ok ct =>
        match ct.iv with
        | none => do
          let r ← noIv.attempt
          pure (r, ws ++ [zeroize filled])
        | some iv =>
          let take := min (len - filled) cipherIvLen
          randomLoop kid len rounds (filled + take) (ws ++ [⟨filled, iv.take take⟩])

/-- `ehem_random`: its verdict and its writes. It refuses an argument before the first of them. -/
def random (kid : Bytes) (len : Nat) : Api cfg (Except Rc Unit × List Store) := do
  clearError
  checkKid (lit "crypto/random") kid
  if len < 1 then ctxFail .arg 0 none [txt "crypto/random: len must be at least 1"]
  else randomLoop kid len len 0 []

end Api

end EncedoHem
