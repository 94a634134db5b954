import EncedoHem.System

namespace EncedoHem
open Text Dialogue

structure LoggerKeyInfo where
  key : Bytes
  nonce : Bytes
  nonceSigned : Bytes
  deriving DecidableEq, Repr

structure LoggerPage where
  total : Int
  ids : List Bytes
  deriving DecidableEq, Repr

namespace Api
variable {cfg : Config}

/-- The storage endpoints answer with an empty 200. -/
def storageCall (path scope : Bytes) : Api cfg Unit := do
  let r ← requestEmpty .get path none (some scope)
  match r with
  | .error rc => throwRc rc
  | .ok _ => clearError

/-- The scope of a disk carries the arguments of the call. -/
def diskScope (disk : Int) (writable : Bool) : Bytes :=
  lit "storage:disk" ++ decimal disk ++ if writable then lit ":rw" else []

def storageUnlock (disk : Int) (writable : Bool) : Api cfg Unit := do
  clearError
  if disk < 0 ∨ 2 < disk then ctxFail .arg 0 none [txt "storage/unlock: disk must be 0..2"]
  else storageCall (lit "storage/unlock") (diskScope disk writable)

def storageLock (disk : Int) : Api cfg Unit := do
  clearError
  if disk < 0 ∨ 2 < disk then ctxFail .arg 0 none [txt "storage/lock: disk must be 0..2"]
  else storageCall (lit "storage/lock") (diskScope disk false)

def loggerScope : Bytes := lit "logger:get"

/-- A string member that decodes to exactly `want` bytes. -/
def fixedB64 (root : Json) (key : String) (want : Nat) : Option Bytes :=
  ((root.getString (lit key)).bind (b64StdDecode · 128)).filter (·.length = want)

def loggerKey : Api cfg LoggerKeyInfo := do
  clearError
  let root ← requestJson .get (lit "logger/key") none (some loggerScope)
  need
  match fixedB64 root "key" 32, fixedB64 root "nonce" 32, fixedB64 root "nonce_signed" 64 with
  | some key, some nonce, some sig => pure ⟨key, nonce, sig⟩
  | _, _, _ =>
    ctxFail .protocol 200 none
      [txt "logger/key: key/nonce/nonce_signed must base64-decode to 32/32/64 bytes"]

/-- Copies of the ids from the `i`-th on; each must be a string. -/
def copyIds : Nat → List Json → Api cfg (List Bytes)
  | _, [] => pure []
  | i, j :: rest =>
    match j.asString with
    | none =>
      ctxFail .protocol 200 none
        [txt "logger/list: 'id' element ", num i, txt " is not a string"]
    | some s => do
      need
      let more ← copyIds (i + 1) rest
      pure (s :: more)

def loggerIds (root : Json) : Api cfg (List Bytes) :=
  match ((root.get (lit "id")).filter (·.isArray)).map (·.elements) with
  | none => pure []
  | some [] => pure []
  | some js => do
    need
    copyIds 0 js

def loggerList (offset : Nat) : Api cfg LoggerPage := do
  clearError
  let root ← requestJson .get (lit "logger/list/" ++ digits offset) none (some loggerScope)
  need
  let ids ← loggerIds root
  pure ⟨(root.getInt64 (lit "total")).getD 0, ids⟩

/-- The raw log file of a hex id; a missing or an empty id is refused unrecorded. -/
def loggerGet (id : Bytes) : Api cfg Bytes :=
  if id = [] then throwRc .arg
  else do
    clearError
    if ¬id.all isHexDigit then ctxFail .arg 0 none [txt "logger/get: id must be hex"]
    else if 32 ≤ id.length then ctxFail .arg 0 none [txt "logger/get: id too long"]
    else requestRaw .get (lit "logger/" ++ id) none (some loggerScope)

end Api

end EncedoHem
