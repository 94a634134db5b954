import EncedoHem.System

namespace EncedoHem
open Text Dialogue

structure KeyEntry where
  kid : Bytes
  type : Bytes
  label : Option Bytes
  descr : Option Bytes
  created : Int
  updated : Int
  deriving DecidableEq, Repr

structure KeyPage where
  offset : Int
  total : Int
  entries : List KeyEntry
  deriving DecidableEq, Repr

def KeyPage.empty : KeyPage := ⟨0, 0, []⟩

structure KeyDetails where
  type : Bytes
  updated : Int
  pubkey : Option Bytes
  der : Option Bytes
  descr : Option Bytes
  deriving DecidableEq, Repr

structure KeyCreateParams where
  type : Bytes
  label : Bytes
  mode : Option Bytes
  descr : Buf
  deriving DecidableEq, Repr

structure KeyImportParams where
  type : Bytes
  label : Bytes
  pubkey : Bytes
  mode : Option Bytes
  descr : Buf
  deriving DecidableEq, Repr

inductive KeySearchMode where
  | substring | prefixed | suffixed
  deriving DecidableEq, Repr

def keymgmtGenScope : Bytes := lit "keymgmt:gen"
def keymgmtDelScope : Bytes := lit "keymgmt:del"
def keymgmtSearchScope : Bytes := lit "keymgmt:search"
def keymgmtUpdScope : Bytes := lit "keymgmt:upd"
def keymgmtImpScope : Bytes := lit "keymgmt:imp"

/-- The scope of the use of one key. -/
def useScope (kid : Bytes) : Bytes := lit "keymgmt:use:" ++ kid

def keymgmtLabelMax : Nat := 32
def keymgmtDescrMax : Nat := 64
def keymgmtTypeMax : Nat := 16
def keymgmtPeerPubkeyMax : Nat := 67

def isPrint (c : UInt8) : Bool := 0x20 ≤ c && c ≤ 0x7e

def labelOk (label : Bytes) : Bool :=
  1 ≤ label.length && label.length ≤ keymgmtLabelMax && label.all isPrint

/-- A size as the signed integer it is cast to. -/
def asInt64 (n : Nat) : Int :=
  if n % 2 ^ 64 < 2 ^ 63 then (n % 2 ^ 64 : Nat) else (n % 2 ^ 64 : Nat) - 2 ^ 64

namespace Api
variable {cfg : Config}

def kidNotHex {α : Type} (what : String) : Api cfg α :=
  ctxFail .arg 0 none [txt what, txt ": kid must be exactly 32 hex chars"]

def labelNotOk {α : Type} (what : String) : Api cfg α :=
  ctxFail .arg 0 none [txt what, txt ": label must be 1..32 printable bytes"]

def descrTooLong {α : Type} (what : String) : Api cfg α :=
  ctxFail .arg 0 none [txt what, txt ": descr must be at most 64 bytes"]

/-- The buffer is given and longer than a description may be. -/
def descrOver (descr : Buf) : Bool := !descr.isNull && decide (keymgmtDescrMax < descr.len)

def entryMissing {α : Type} (i : Nat) (field : String) : Api cfg α :=
  ctxFail .protocol 200 none
    [txt "keymgmt/list: entry ", num i, txt " missing required field '", txt field, txt "'"]

def entryStr (j : Json) (i : Nat) (field : String) : Api cfg Bytes :=
  match j.getString (lit field) with
  | none => entryMissing i field
  | some s => do
    need
    pure s

def parseEntry (i : Nat) (j : Json) : Api cfg KeyEntry := do
  let kid ← entryStr j i "kid"
  let type ← entryStr j i "type"
  let label ← optStr j (lit "label")
  let descr ← decodeOptB64 j (lit "descr")
  pure ⟨kid, type, label, descr, (j.getInt64 (lit "created")).getD 0,
    (j.getInt64 (lit "updated")).getD 0⟩

/-- The entries from the `i`-th on. -/
def parseEntries : Nat → List Json → Api cfg (List KeyEntry)
  | _, [] => pure []
  | i, j :: rest => do
    let e ← parseEntry i j
    let more ← parseEntries (i + 1) rest
    pure (e :: more)

/-- The elements of the list of a page; no list counts as an empty one. -/
def pageList (root : Json) : List Json :=
  (((root.get (lit "list")).filter (·.isArray)).map (·.elements)).getD []

def parseKeyPage (root : Json) : Api cfg KeyPage := do
  need
  let offset := (root.getInt64 (lit "offset")).getD 0
  let total := (root.getInt64 (lit "total")).getD 0
  match pageList root with
  | [] => pure ⟨offset, total, []⟩
  | js => do
    need
    let es ← parseEntries 0 js
    pure ⟨offset, total, es⟩

/-- The device's payload as it fits a 256-byte buffer. -/
def clipPayload (payload : Option Bytes) : Option Bytes :=
  match payload.map fun p => (cstr p).take 255 with
  | some [] => none
  | p => p

/-- A 406 of the device means that it does not hold the key. -/
def map406NotFound {α : Type} (rc : Rc) (what : String) : Api cfg α := do
  let s ← getCtx
  if rc = .device ∧ s.lastError.httpStatus = 406 then
    ctxFail .notFound 406 (clipPayload s.lastError.devicePayload) [txt what, txt ": key not found"]
  else throwRc rc

/-- A key id that a device answered with. -/
def answeredKid (root : Json) (what : String) : Api cfg Bytes :=
  match root.getString (lit "kid") with
  | none => ctxFail .protocol 200 none [txt what, txt ": response missing 'kid'"]
  | some kid =>
    if isKidHex kid then pure kid
    else ctxFail .protocol 200 none [txt what, txt ": 'kid' is not 32 hex chars"]

def keyCreate (p : KeyCreateParams) : Api cfg Bytes := do
  clearError
  if ¬labelOk p.label then labelNotOk "keymgmt/create"
  else if descrOver p.descr then descrTooLong "keymgmt/create"
  else do
    let body ← printObject (strMember "type" p.type ++ strMember "label" p.label ++
      optStrMember "mode" p.mode ++ optB64Member "descr" p.descr)
    let root ← requestJson .post (lit "keymgmt/create") (some body) (some keymgmtGenScope)
    answeredKid root "keymgmt/create"

def keyDelete (kid : Bytes) : Api cfg Unit := do
  clearError
  if ¬isKidHex kid then kidNotHex "keymgmt/delete"
  else do
    let r ← requestEmpty .delete (lit "keymgmt/delete/" ++ kid) none (some keymgmtDelScope)
    match r with
    | .ok _ => clearError
    | .error rc => map406NotFound rc "keymgmt/delete"

def keyUpdate (kid label : Bytes) (descr : Buf) : Api cfg Unit := do
  clearError
  if ¬isKidHex kid then kidNotHex "keymgmt/update"
  else if ¬labelOk label then labelNotOk "keymgmt/update"
  else if descrOver descr then descrTooLong "keymgmt/update"
  else do
    let body ← printObject (strMember "kid" kid ++ strMember "label" label ++
      optB64Member "descr" descr)
    let r ← requestEmpty .post (lit "keymgmt/update") (some body) (some keymgmtUpdScope)
    match r with
    | .ok _ => clearError
    | .error rc => map406NotFound rc "keymgmt/update"

def keyImport (p : KeyImportParams) : Api cfg Bytes :=
  if p.pubkey = [] then throwRc .arg
  else do
    clearError
    if ¬labelOk p.label then labelNotOk "keymgmt/import"
    else if descrOver p.descr then descrTooLong "keymgmt/import"
    else do
      let body ← printObject (strMember "type" p.type ++ strMember "label" p.label ++
        b64Member "pubkey" p.pubkey ++ optStrMember "mode" p.mode ++ optB64Member "descr" p.descr)
      let root ← requestJson .post (lit "keymgmt/import") (some body) (some keymgmtImpScope)
      answeredKid root "keymgmt/import"

/-- The peer's key is given: a buffer with something in it. -/
def havePub (pubkey : Buf) : Bool := !pubkey.isNull && decide (0 < pubkey.len)

def keyDerive (kid label type : Bytes) (extKid : Option Bytes) (pubkey : Buf) (mode : Option Bytes)
    (descr : Buf) : Api cfg Bytes := do
  clearError
  if ¬isKidHex kid then kidNotHex "keymgmt/derive"
  else if ¬labelOk label then labelNotOk "keymgmt/derive"
  else if type = [] ∨ keymgmtTypeMax < type.length then
    ctxFail .arg 0 none [txt "keymgmt/derive: type must be 1..16 chars"]
  else if extKid.isSome = havePub pubkey then
    ctxFail .arg 0 none [txt "keymgmt/derive: exactly one of ext_kid / pubkey"]
  else if extKid.any (¬isKidHex ·) then
    ctxFail .arg 0 none [txt "keymgmt/derive: ext_kid must be exactly 32 hex chars"]
  else if havePub pubkey ∧ keymgmtPeerPubkeyMax < pubkey.len then
    ctxFail .arg 0 none [txt "keymgmt/derive: pubkey must be at most 67 bytes"]
  else if descrOver descr then descrTooLong "keymgmt/derive"
  else do
    let body ← printObject (strMember "kid" kid ++ strMember "label" label ++ strMember "type" type ++
      optStrMember "ext_kid" extKid ++ optB64Member "pubkey" pubkey ++ optStrMember "mode" mode ++
      optB64Member "descr" descr)
    let root ← requestJson .post (lit "keymgmt/derive") (some body) (some keymgmtGenScope)
    answeredKid root "keymgmt/derive"

/-- The pattern of a search in base64, anchored as the mode says. -/
def searchDescr (mode : KeySearchMode) (pattern : Bytes) : Bytes :=
  match mode with
  | .substring => b64Of pattern
  | .prefixed => lit "^" ++ b64Of pattern
  | .suffixed => b64Of pattern ++ lit "$"

/-- `search_one_page`: a 404 means that nothing matched. -/
def searchOnePage (descr : Bytes) (offset limit : Nat) : Api cfg KeyPage := do
  let body ← printObject (strMember "descr" descr ++ [(lit "offset", .int (asInt64 offset)),
    (lit "limit", .int (asInt64 limit))])
  let r ← (requestJson .post (lit "keymgmt/search") (some body) (some keymgmtSearchScope)).attempt
  match r with
  | .error .notFound => do
    need
    clearError
    pure .empty
  | .error rc => throwRc rc
  | .ok root => parseKeyPage root

/-- A null pattern has no length. -/
def searchArgsOk (pattern : Buf) : Bool := !pattern.isNull || decide (pattern.len = 0)

def keySearch (pattern : Buf) (mode : KeySearchMode) (offset limit : Nat) : Api cfg KeyPage :=
  if ¬searchArgsOk pattern then throwRc .arg
  else do
    clearError
    need
    searchOnePage (searchDescr mode pattern.bytes) offset limit

def parseKeyDetails (root : Json) : Api cfg KeyDetails := do
  need
  match root.getString (lit "type") with
  | none => ctxFail .protocol 200 none [txt "keymgmt/get: missing required field 'type'"]
  | some type => do
    need
    let pubkey ← decodeOptB64 root (lit "pubkey")
    let der ← decodeOptB64 root (lit "der")
    let descr ← decodeOptB64 root (lit "descr")
    pure ⟨type, (root.getInt64 (lit "updated")).getD 0, pubkey, der, descr⟩

def keyGet (kid : Bytes) : Api cfg KeyDetails := do
  clearError
  if ¬isKidHex kid then kidNotHex "keymgmt/get"
  else do
    let r ← (requestJson .get (lit "keymgmt/get/" ++ kid) none (some (useScope kid))).attempt
    match r with
    | .error rc => map406NotFound rc "keymgmt/get"
    | .ok root => parseKeyDetails root

end Api

end EncedoHem
