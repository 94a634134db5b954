import EncedoHem.DeviceInit
import EncedoHem.Proofs.Neutral

namespace EncedoHem
open Text Dialogue

/-- A command that reaches the network through broker exchanges, unauthenticated
requests to the device and ext-login posts only, and touches nothing of the context
but the error detail: whatever these keep is kept by it. -/
structure Part (cfg : Config) {α : Type} (x : Cmd α) : Prop where
  keeps : ∀ {K : Contract Op Ans Ctx}, Machinery cfg K → Keeps K x

/-- A confirm handle is named by its place among those handed out; a cancelled
one cannot be used. -/
def takeHandle (i : Nat) : Cmd Confirm := do
  let s ← getCtx
  match s.handles[i]?.join with
  | none => throwRc .arg
  | some c => pure c

def Ctx.setHandle (s : Ctx) (i : Nat) (c : Option Confirm) : Ctx :=
  { s with handles := s.handles.set i c }

def Ctx.addHandle (s : Ctx) (c : Confirm) : Ctx := { s with handles := s.handles ++ [some c] }

section
variable (cfg : Config)

/-- `ehem_ext_confirm_begin`: a new handle in the client's hands. -/
def extConfirmBegin (notifyUrl : Option Bytes) (scope : Bytes) (ctxStr note : Option Bytes) :
    Cmd Nat := do
  let c ← confirmBegin cfg notifyUrl scope ctxStr note
  let s ← getCtx
  modifyCtx (·.addHandle c)
  pure s.handles.length

/-- `ehem_ext_confirm_poll` on a handle of the client's. -/
def extConfirmPoll (i : Nat) : Cmd ConfirmStatus := do
  let c ← takeHandle i
  let (r, c) ← confirmPoll cfg c
  modifyCtx (·.setHandle i (some c))
  liftRc r

/-- `ehem_ext_confirm_wait` on a handle of the client's. -/
def extConfirmWait (i : Nat) (timeoutMs : Int) : Cmd Unit := do
  let c ← takeHandle i
  let (r, c) ← confirmWait cfg c timeoutMs
  modifyCtx (·.setHandle i (some c))
  liftRc r

end

/-- `ehem_ext_confirm_cancel`. -/
def extConfirmCancel (i : Nat) : Cmd Unit := modifyCtx (·.setHandle i none)

/-- What every function of the interface is put together from. A request is made
to the device's own interface, below `/api/`, or verified in full and without a
scope to wherever it names. -/
inductive Prim (cfg : Config) : (α : Type) → Cmd α → Prop where
  | part (α : Type) (x : Cmd α) (h : Part cfg x) : Prim cfg α x
  | device (method : Method) (path : Bytes) (body scope : Option Bytes) :
      Prim cfg Bytes (requestRaw cfg method (lit "/api/" ++ path) body scope .default)
  | cloud (method : Method) (url : Bytes) (body : Option Bytes) :
      Prim cfg Bytes (requestRaw cfg method url body none .verify)
  | checkin : Prim cfg CheckinInfo (checkinRunInfo cfg .explicit true)
  | login (passphrase : Bytes) : Prim cfg Unit (login cfg passphrase)
  | loginMobile : Prim cfg Unit loginMobile
  | logout : Prim cfg Unit logout
  | authInvalidateAll : Prim cfg Unit authInvalidateAll
  | deviceInit (p : InitParams) (out : Bool) : Prim cfg (Option InitInfo) (deviceInit cfg p out)
  | confirmBegin (url : Option Bytes) (scope : Bytes) (ctxStr note : Option Bytes) :
      Prim cfg Nat (extConfirmBegin cfg url scope ctxStr note)
  | confirmPoll (i : Nat) : Prim cfg ConfirmStatus (extConfirmPoll cfg i)
  | confirmWait (i : Nat) (timeoutMs : Int) : Prim cfg Unit (extConfirmWait cfg i timeoutMs)
  | confirmCancel (i : Nat) : Prim cfg Unit (extConfirmCancel i)

/-- A function of the interface, or a client's use of several: any calls in any
order, each decided on by what the ones before it returned. -/
abbrev Api (cfg : Config) := Dialogue.Program (Prim cfg)

namespace Api
variable {cfg : Config} {α : Type}

def ofPart (x : Cmd α) (h : Part cfg x) : Api cfg α := .prim x (.part α x h)

def clearError : Api cfg Unit := ofPart EncedoHem.clearError ⟨fun h => h.clearError⟩

def ctxFail (rc : Rc) (status : Int) (payload : Option Bytes) (fmt : List Piece) : Api cfg α :=
  ofPart (EncedoHem.ctxFail rc status payload fmt) ⟨fun h => h.ctxFail ..⟩

def need : Api cfg Unit := ofPart EncedoHem.need ⟨fun h => h.need⟩

def parseJson (b : Bytes) : Api cfg (Option Json) :=
  ofPart (EncedoHem.parseJson b) ⟨fun h => h.parseJson b⟩

def printObject (ms : List (Bytes × Json)) : Api cfg Bytes :=
  ofPart (EncedoHem.printObject ms) ⟨fun h => h.printObject ms⟩

def optStr (root : Json) (key : Bytes) : Api cfg (Option Bytes) :=
  ofPart (EncedoHem.optStr root key) ⟨fun h => h.optStr root key⟩

def reqStr (root : Json) (what key : Bytes) : Api cfg Bytes :=
  ofPart (EncedoHem.reqStr root what key) ⟨fun h => h.reqStr root what key⟩

def getCtx : Api cfg Ctx := .get

def throwRc (rc : Rc) : Api cfg α := .throw rc

/-- `ehem_proto_request_raw` for the path `/api/` and what is given. -/
def requestRaw (method : Method) (path : Bytes) (body scope : Option Bytes) : Api cfg Bytes :=
  .prim (EncedoHem.requestRaw cfg method (lit "/api/" ++ path) body scope .default)
    (.device method path body scope)

/-- `ehem_proto_request_json` for the path `/api/` and what is given. -/
def requestJson (method : Method) (path : Bytes) (body scope : Option Bytes) : Api cfg Json := do
  let b ← requestRaw method path body scope
  ofPart (parseBody (lit "/api/" ++ path) b) ⟨fun h => h.parseBody ..⟩

/-- `ehem_proto_request_raw` to a cloud: without a scope and verified in full. -/
def requestCloud (method : Method) (url : Bytes) (body : Option Bytes) : Api cfg Bytes :=
  .prim (EncedoHem.requestRaw cfg method url body none .verify) (.cloud method url body)

def authInvalidateAll : Api cfg Unit := .prim EncedoHem.authInvalidateAll .authInvalidateAll

def login (passphrase : Bytes) : Api cfg Unit :=
  .prim (EncedoHem.login cfg passphrase) (.login passphrase)

def loginMobile : Api cfg Unit := .prim EncedoHem.loginMobile .loginMobile

def logout : Api cfg Unit := .prim EncedoHem.logout .logout

def systemCheckin : Api cfg CheckinInfo := do
  clearError
  .prim (checkinRunInfo cfg .explicit true) .checkin

def deviceInit (p : InitParams) (out : Bool) : Api cfg (Option InitInfo) :=
  .prim (EncedoHem.deviceInit cfg p out) (.deviceInit p out)

def notifySession (url eid : Option Bytes) : Api cfg Bytes :=
  ofPart (EncedoHem.notifySession cfg url eid) ⟨fun h => h.pushing.notifySession url eid⟩

def notifyRegisterInit (url : Option Bytes) (epk eid request : Bytes) : Api cfg RegisterInfo :=
  ofPart (EncedoHem.notifyRegisterInit cfg url epk eid request)
    ⟨fun h => h.pushing.notifyRegisterInit url epk eid request⟩

def notifyRegisterCheck (url : Option Bytes) (rid : Bytes) : Api cfg (Polled PairingReply) :=
  ofPart (EncedoHem.notifyRegisterCheck cfg url rid) ⟨fun h => h.pushing.notifyRegisterCheck url rid⟩

def notifyRegisterFinalise (url : Option Bytes) (rid kid code : Bytes) : Api cfg Unit :=
  ofPart (EncedoHem.notifyRegisterFinalise cfg url rid kid code)
    ⟨fun h => h.pushing.notifyRegisterFinalise url rid kid code⟩

def notifyEventNew (url : Option Bytes) (authreq epk : Bytes) : Api cfg Bytes :=
  ofPart (EncedoHem.notifyEventNew cfg url authreq epk) ⟨fun h => h.pushing.notifyEventNew url authreq epk⟩

def notifyEventCheck (url : Option Bytes) (eventid : Bytes) : Api cfg (Polled EventResult) :=
  ofPart (EncedoHem.notifyEventCheck cfg url eventid) ⟨fun h => h.pushing.notifyEventCheck url eventid⟩

def extRequest (epk scope : Bytes) (ctxStr note : Option Bytes) : Api cfg ExtRequestInfo :=
  ofPart (EncedoHem.extRequest cfg epk scope ctxStr note) ⟨fun h => h.pushing.extRequest epk scope ctxStr note⟩

def extToken (authreply : Bytes) : Api cfg Bytes :=
  ofPart (EncedoHem.extToken cfg authreply) ⟨fun h => h.pushing.extToken authreply⟩

def extConfirmBegin (url : Option Bytes) (scope : Bytes) (ctxStr note : Option Bytes) : Api cfg Nat :=
  .prim (EncedoHem.extConfirmBegin cfg url scope ctxStr note) (.confirmBegin url scope ctxStr note)

def extConfirmPoll (i : Nat) : Api cfg ConfirmStatus :=
  .prim (EncedoHem.extConfirmPoll cfg i) (.confirmPoll i)

def extConfirmWait (i : Nat) (timeoutMs : Int) : Api cfg Unit :=
  .prim (EncedoHem.extConfirmWait cfg i timeoutMs) (.confirmWait i timeoutMs)

def extConfirmCancel (i : Nat) : Api cfg Unit := .prim (EncedoHem.extConfirmCancel i) (.confirmCancel i)

def authIsMobile : Api cfg Bool :=
  ofPart EncedoHem.authIsMobile ⟨fun _ => .bind .get fun _ => .pure _⟩

/-- A string member of an answer in standard base64, decoded; a member that is
missing, empty or no base64 counts as absent. -/
def decodeOptB64 (root : Json) (key : Bytes) : Api cfg (Option Bytes) :=
  match root.getString key with
  | none => pure none
  | some [] => pure none
  | some s => do
    need
    pure (b64StdDecode s s.length)

end Api

/-- A C buffer: a null pointer with whatever length was given with it, or bytes. -/
inductive Buf where
  | null (len : Nat)
  | data (b : Bytes)
  deriving DecidableEq, Repr

namespace Buf

def len : Buf → Nat
  | null n => n
  | data b => b.length

def isNull : Buf → Bool
  | null _ => true
  | data _ => false

/-- The bytes, as far as there are any. -/
def bytes : Buf → Bytes
  | null _ => []
  | data b => b

end Buf

/-- Standard base64 of the bytes. -/
def b64Of (b : Bytes) : Bytes := (b64StdEncode b (b64StdEncodedLen b.length + 1)).getD []

/-- A member of a request's body in base64. -/
def b64Member (key : String) (b : Bytes) : List (Bytes × Json) := [(lit key, .str (b64Of b))]

/-- The same for a buffer that is left out when there is nothing in it. -/
def optB64Member (key : String) (b : Buf) : List (Bytes × Json) :=
  if b.isNull ∨ b.len = 0 then [] else b64Member key b.bytes

def strMember (key : String) (v : Bytes) : List (Bytes × Json) := [(lit key, .str v)]

def optStrMember (key : String) : Option Bytes → List (Bytes × Json)
  | none => []
  | some v => strMember key v

end EncedoHem
