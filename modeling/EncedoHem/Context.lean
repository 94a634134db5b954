import EncedoHem.Base64
import EncedoHem.Types

namespace EncedoHem
open Text Dialogue

/-- A part of a message: text put in place, or the `%s` whose argument is the
very buffer the message is written to. -/
inductive Piece where
  | text (b : Bytes)
  | ownMessage
  deriving DecidableEq, Repr

def txt (s : String) : Piece := .text (lit s)
def num (i : Int) : Piece := .text (decimal i)

/-- The size of the message buffer without its closing zero. -/
def errMsgRoom : Nat := 255

/-- Copying the destination into itself from position `j`: each byte read is one
already written over where the writing has passed it, the old one elsewhere. -/
def copyOwn (old : Bytes) : Nat → Nat → Bytes → Bytes
  | 0, _, out => out
  | fuel + 1, j, out =>
    let c := if j < out.length then out.getD j 0 else old.getD j 0
    if c = 0 then out else copyOwn old fuel (j + 1) (out ++ [c])

/-- `vsnprintf` into the message buffer that holds `old`, writing left to right
while it reads its string arguments. -/
def vsnprintf (old : Bytes) : List Piece → Bytes → Bytes
  | [], out => out.take errMsgRoom
  | .text b :: rest, out => vsnprintf old rest (out ++ b)
  | .ownMessage :: rest, out =>
    vsnprintf old rest (copyOwn old (errMsgRoom + 1 - out.length) 0 out)

def ErrorDetail.clear : ErrorDetail := ⟨0, none, [], false⟩

def ask (i : Op) : Cmd (Ans i) := Cmd.ask i
def mark (m : Mark) : Cmd Unit := ask (Op.mark m)
def alloc : Cmd Bool := ask Op.alloc
def transportSend (scope : Option Bytes) (req : Request) : Cmd Answer := ask (Op.send scope req)
def authNow : Cmd Int := ask Op.authNow
def wallTime : Cmd Int := ask Op.wallTime
def sleep (ms : Int) : Cmd Unit := ask (Op.sleep ms)
def notice (scope : Bytes) (timeoutMs : Int) : Cmd Unit := ask (Op.notice scope timeoutMs)
def globalInit : Cmd (Except Rc Unit) := ask Op.globalInit
def kdfPbkdf2Sha256 (passphrase salt : Bytes) (iters : Nat) : Cmd (Except Rc Bytes) :=
  ask (Op.pbkdf2 passphrase salt iters)
def x25519KeypairFromSeed (seed : Bytes) : Cmd (Except Rc (Bytes × Bytes)) :=
  ask (Op.x25519Keypair seed)
def x25519Shared (priv peer : Bytes) : Cmd (Except Rc Bytes) := ask (Op.x25519Shared priv peer)
def hmacSha256 (key msg : Bytes) : Cmd (Except Rc Bytes) := ask (Op.hmacSha256 key msg)
def throwRc {α : Type} (rc : Rc) : Cmd α := Cmd.throw rc
def getCtx : Cmd Ctx := Cmd.get
def modifyCtx (f : Ctx → Ctx) : Cmd Unit := Cmd.modify f

def Ctx.setError (s : Ctx) (e : ErrorDetail) : Ctx := { s with lastError := e }

def clearError : Cmd Unit := modifyCtx fun s => s.setError .clear

def Ctx.setPayload (s : Ctx) (p : Option Bytes) : Ctx :=
  s.setError { s.lastError with devicePayload := p }

def Ctx.setTlsExpired (s : Ctx) (b : Bool) : Ctx :=
  s.setError { s.lastError with tlsExpired := b }

/-- The part of `ehem_ctx_fail` that writes the error detail. When the payload
cannot be copied the code and the message still stand. -/
def record (status : Int) (payload : Option Bytes) (fmt : List Piece) : Cmd Unit := do
  modifyCtx fun s => s.setError ⟨status, none, vsnprintf s.lastError.message fmt [], false⟩
  match payload with
  | none => pure ()
  | some p => do
    let ok ← alloc
    if ok then modifyCtx fun s => s.setPayload (some p) else pure ()

/-- `return ehem_ctx_fail(...)`. -/
def ctxFail {α : Type} (rc : Rc) (status : Int) (payload : Option Bytes) (fmt : List Piece) :
    Cmd α := do
  record status payload fmt
  throwRc rc

def outOfMemory {α : Type} : Cmd α := ctxFail .nomem 0 none [txt "out of memory"]

/-- Memory for one object; without it the call fails. -/
def need : Cmd Unit := do
  let ok ← alloc
  if ok then pure () else outOfMemory

/-- `ehem_json_parse`: memory permitting, what the text parses to. -/
def parseJson (b : Bytes) : Cmd (Option Json) := do
  let ok ← alloc
  pure (if ok then jsonParse b else none)

/-- Building an object of the given members and printing it. -/
def printObject (ms : List (Bytes × Json)) : Cmd Bytes := do
  need
  pure (printValue (.obj ms))

def sleepMs (ms : Int) : Cmd Unit := if ms ≤ 0 then pure () else sleep ms

/-- The text between the first and the second dot of a compact token. -/
def middleSegment (jwt : Bytes) : Option Bytes := do
  let (_, r) ← cutAt 46 jwt
  let (p, _) ← cutAt 46 r
  some p

/-- An integer claim of a compact token whose middle segment has 1 to 1024 characters. -/
def peekClaim (jwt key : Bytes) : Cmd (Option Int) :=
  match middleSegment jwt with
  | none => pure none
  | some seg =>
    if seg.length = 0 ∨ 1024 < seg.length then pure none
    else match b64urlDecode seg 1024 with
      | none => pure none
      | some raw => do
        let payload ← parseJson raw
        pure (payload.bind (·.getInt64 key))

/-- Aliasing at work: the prefix repeats for as long as there is room. -/
example : copyOwn (lit "m") 8 0 (lit "ab: ") = lit "ab: ab: ab: " := by decide +kernel

end EncedoHem
