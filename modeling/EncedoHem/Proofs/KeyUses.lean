import EncedoHem.Proofs.KeyWrites
import EncedoHem.Proofs.ValueCalls

namespace EncedoHem
open Text Dialogue

/-- A member in base64 that decodes to something. -/
def readB64 (key : String) (root : Json) : Option Bytes :=
  ((root.getString (lit key)).filter (· ≠ [])).bind fun s => (b64StdDecode s s.length).filter (· ≠ [])

def readCiphertext (root : Json) : Option Ciphertext := do
  let ct ← readB64 "ciphertext" root
  let iv ← Api.decodeFixedField root "iv" cipherIvLen
  let tag ← Api.decodeFixedField root "tag" cipherTagLen
  pure ⟨ct, iv, tag⟩

def readPlaintext (root : Json) : Option Bytes :=
  (root.getString (lit "plaintext")).bind fun s => if s = [] then some [] else b64StdDecode s s.length

def readEncaps (root : Json) : Option MlkemEncapsResult := do
  let ct ← readB64 "ct" root
  let ss ← Api.decodeSs root
  pure ⟨ct, ss, Api.copyAlg root⟩

def readSecret (root : Json) : Option MlkemSecret := (Api.decodeSs root).map (⟨·, Api.copyAlg root⟩)

def readSignature (root : Json) : Option MldsaSignature := (readB64 "sign" root).map (⟨·, Api.copyAlg root⟩)

def readKid (root : Json) : Option Bytes := (root.getString (lit "kid")).filter (isKidHex ·)

/-- The calls that put a key of the device to use, or make one, and hand on what the device answers. -/
inductive KeyUse where
  | sign (kid alg msg : Bytes) (sigCtx : Buf)
  | ecdh (kid : Bytes) (peer : Peer) (alg : Option Bytes)
  | hmac (kid : Bytes) (alg : Option Bytes) (msg : Bytes) (peer : Peer)
  | encrypt (kid alg msg : Bytes) (aad : Buf) (peer : Peer) (hkdfCtx : Buf)
  | decrypt (a : Api.CipherArgs)
  | wrap (a : Api.WrapArgs)
  | unwrap (a : Api.WrapArgs)
  | mlkemEncaps (kid : Bytes)
  | mlkemDecaps (kid ct : Bytes)
  | mldsaSign (kid msg : Bytes) (sigCtx : Buf)
  | keyCreate (p : KeyCreateParams)
  | keyImport (p : KeyImportParams)
  | keyDerive (kid label type : Bytes) (extKid : Option Bytes) (pubkey : Buf) (mode : Option Bytes) (descr : Buf)

/-- The members that `cipher_build` puts into a body. -/
def Api.CipherArgs.members (a : Api.CipherArgs) : List (Bytes × Json) :=
  strMember "kid" a.kid ++ b64Member "msg" a.msg ++ strMember "alg" a.alg ++ b64MemberOf "iv" a.iv ++
    b64MemberOf "tag" a.tag ++ optB64Member "aad" a.aad ++ a.peer.members ++ optB64Member "ctx" a.hkdfCtx

/-- The members that `build_wrap_body` puts into a body. -/
def Api.WrapArgs.members (a : Api.WrapArgs) : List (Bytes × Json) :=
  strMember "kid" a.kid ++ b64Member "msg" a.msg.bytes ++ optStrMember "alg" a.alg ++ a.peer.members ++
    optB64Member "ctx" a.hkdfCtx ++ b64MemberOf "iv" a.iv

namespace KeyUse

abbrev Out : KeyUse → Type
  | encrypt .. => Ciphertext
  | mlkemEncaps .. => MlkemEncapsResult
  | mlkemDecaps .. => MlkemSecret
  | mldsaSign .. => MldsaSignature
  | _ => Bytes

def cmd (cfg : Config) : (u : KeyUse) → Cmd u.Out
  | sign kid alg msg sigCtx => (Api.sign kid alg msg sigCtx : Api cfg Bytes).cmd
  | ecdh kid peer alg => (Api.ecdh kid peer alg : Api cfg Bytes).cmd
  | hmac kid alg msg peer => (Api.hmac kid alg msg peer : Api cfg Bytes).cmd
  | encrypt kid alg msg aad peer hkdfCtx => (Api.encrypt kid alg msg aad peer hkdfCtx : Api cfg Ciphertext).cmd
  | decrypt a => (Api.decrypt a : Api cfg Bytes).cmd
  | wrap a => (Api.wrap a : Api cfg Bytes).cmd
  | unwrap a => (Api.unwrap a : Api cfg Bytes).cmd
  | mlkemEncaps kid => (Api.mlkemEncaps kid : Api cfg MlkemEncapsResult).cmd
  | mlkemDecaps kid ct => (Api.mlkemDecaps kid ct : Api cfg MlkemSecret).cmd
  | mldsaSign kid msg sigCtx => (Api.mldsaSign kid msg sigCtx : Api cfg MldsaSignature).cmd
  | keyCreate p => (Api.keyCreate p : Api cfg Bytes).cmd
  | keyImport p => (Api.keyImport p : Api cfg Bytes).cmd
  | keyDerive kid label type extKid pubkey mode descr =>
    (Api.keyDerive kid label type extKid pubkey mode descr : Api cfg Bytes).cmd

/-- Every use of a key is posted to a path of its own under a scope. -/
def post (path scope : Bytes) (ms : List (Bytes × Json)) : Call :=
  EmptyCall.ask .post path (some (printValue (.obj ms))) scope

/-- The request that the call makes. -/
def request : KeyUse → Call
  | sign kid alg msg sigCtx => post (lit "crypto/exdsa/sign") (useScope kid)
      (strMember "kid" kid ++ b64Member "msg" msg ++ strMember "alg" alg ++ optB64Member "ctx" sigCtx)
  | ecdh kid peer alg => post (lit "crypto/ecdh") (useScope kid)
      (strMember "kid" kid ++ peer.members ++ optStrMember "alg" alg)
  | hmac kid alg msg peer => post (lit "crypto/hmac/hash") (useScope kid)
      (strMember "kid" kid ++ b64Member "msg" msg ++ [] ++ optStrMember "alg" alg ++ peer.members)
  | encrypt kid alg msg aad peer hkdfCtx => post (lit "crypto/cipher/encrypt") (useScope kid)
      (Api.CipherArgs.members ⟨kid, alg, msg, .null 0, .null 0, aad, peer, hkdfCtx⟩)
  | decrypt a => post (lit "crypto/cipher/decrypt") (useScope a.kid) a.members
  | wrap a => post (lit "crypto/cipher/wrap") (useScope a.kid) a.members
  | unwrap a => post (lit "crypto/cipher/unwrap") (useScope a.kid) a.members
  | mlkemEncaps kid => post (lit "crypto/pqc/mlkem/encaps") (useScope kid) (strMember "kid" kid)
  | mlkemDecaps kid ct => post (lit "crypto/pqc/mlkem/decaps") (useScope kid) (strMember "kid" kid ++ b64Member "ct" ct)
  | mldsaSign kid msg sigCtx => post (lit "crypto/pqc/mldsa/sign") (useScope kid)
      (strMember "kid" kid ++ b64Member "msg" msg ++ [] ++ optB64Member "ctx" sigCtx)
  | keyCreate p => post (lit "keymgmt/create") keymgmtGenScope
      (strMember "type" p.type ++ strMember "label" p.label ++ optStrMember "mode" p.mode ++ optB64Member "descr" p.descr)
  | keyImport p => post (lit "keymgmt/import") keymgmtImpScope
      (strMember "type" p.type ++ strMember "label" p.label ++ b64Member "pubkey" p.pubkey ++
        optStrMember "mode" p.mode ++ optB64Member "descr" p.descr)
  | keyDerive kid label type extKid pubkey mode descr => post (lit "keymgmt/derive") keymgmtGenScope
      (strMember "kid" kid ++ strMember "label" label ++ strMember "type" type ++ optStrMember "ext_kid" extKid ++
        optB64Member "pubkey" pubkey ++ optStrMember "mode" mode ++ optB64Member "descr" descr)

/-- What the answer to it is read as. -/
def reading : (u : KeyUse) → Json → Option u.Out
  | sign .. => readB64 "sign"
  | ecdh .. => readB64 "ecdh"
  | hmac .. => readB64 "mac"
  | encrypt .. => readCiphertext
  | decrypt .. => readPlaintext
  | wrap .. => readB64 "wrapped"
  | unwrap .. => readB64 "unwrapped"
  | mlkemEncaps .. => readEncaps
  | mlkemDecaps .. => readSecret
  | mldsaSign .. => readSignature
  | keyCreate .. => readKid
  | keyImport .. => readKid
  | keyDerive .. => readKid

end KeyUse

section
variable {cfg : Config}

theorem renders_answeredB64 (root : Json) (what : Bytes) (key : String) :
    Renders (Api.answeredB64 root what key : Api cfg Bytes).cmd (readB64 key root) := by
  unfold Api.answeredB64 readB64
  cases (root.getString (lit key)).filter (· ≠ []) with
  | none => exact Renders.ctxFail ..
  | some s =>
    apply Renders.need_bind
    simp only [Option.bind_some]
    cases (b64StdDecode s s.length).filter (· ≠ []) with
    | none => exact Renders.ctxFail ..
    | some b => exact Renders.pure b

theorem renders_parseCiphertext (root : Json) :
    Renders (Api.parseCiphertext root : Api cfg Ciphertext).cmd (readCiphertext root) := by
  unfold Api.parseCiphertext readCiphertext readB64
  cases (root.getString (lit "ciphertext")).filter (· ≠ []) with
  | none => exact Renders.ctxFail ..
  | some s =>
    apply Renders.need_bind
    simp only [Option.bind_some]
    cases (b64StdDecode s s.length).filter (· ≠ []) with
    | none => exact Renders.ctxFail ..
    | some ct =>
      cases Api.decodeFixedField root "iv" cipherIvLen with
      | none => exact Renders.ctxFail ..
      | some iv =>
        cases Api.decodeFixedField root "tag" cipherTagLen with
        | none => exact Renders.ctxFail ..
        | some tag => exact Renders.pure _

theorem renders_parsePlaintext (root : Json) :
    Renders (Api.parsePlaintext root : Api cfg Bytes).cmd (readPlaintext root) := by
  unfold Api.parsePlaintext readPlaintext
  cases root.getString (lit "plaintext") with
  | none => exact Renders.ctxFail ..
  | some s =>
    apply Renders.need_bind
    rw [Program.cmd_ite]
    simp only [Option.bind_some]
    by_cases h : s = []
    · simpa [h] using Renders.pure _
    · simp only [h, ↓reduceIte]
      cases b64StdDecode s s.length with
      | none => exact Renders.ctxFail ..
      | some b => exact Renders.pure b

theorem renders_answeredKid (root : Json) (what : String) :
    Renders (Api.answeredKid root what : Api cfg Bytes).cmd (readKid root) := by
  unfold Api.answeredKid readKid
  cases root.getString (lit "kid") with
  | none => exact Renders.ctxFail ..
  | some kid =>
    rw [Program.cmd_ite]
    by_cases h : isKidHex kid = true
    · rw [if_pos h, Option.filter_some_pos h]
      exact Renders.pure kid
    · rw [if_neg h, Option.filter_some_neg (by simpa using h)]
      exact Renders.ctxFail ..

/-- The body is put together without a word. -/
structure Prepares (x : Cmd Bytes) (body : Bytes) : Prop where
  quiet : Quiet x
  yields : Yields x (· = body)

namespace Prepares
variable {x y : Cmd Bytes} {body : Bytes}

theorem after {z : Cmd Unit} (hz : Quiet z) (hx : Prepares x body) : Prepares (z >>= fun _ => x) body :=
  ⟨.bind hz fun _ => hx.quiet, .bind fun _ => hx.yields⟩

theorem refuse (what : Bytes) (why : List Piece) : Prepares (Api.refuse what why : Api cfg Bytes).cmd body :=
  ⟨quiet_neutral.ctxFail .., yields_ctxFail ..⟩

theorem ite {p : Prop} [Decidable p] (hx : p → Prepares x body) (hy : ¬p → Prepares y body) :
    Prepares (if p then x else y) body := by
  split
  · exact hx ‹_›
  · exact hy ‹_›

theorem printObject (ms : List (Bytes × Json)) :
    Prepares (Api.printObject ms : Api cfg Bytes).cmd (printValue (.obj ms)) :=
  ⟨quiet_neutral.printObject ms, yields_printObject ms⟩

end Prepares

theorem quiet_checkExactly (what : Bytes) (name : String) (b : Buf) (n : Nat) :
    Quiet (Api.checkExactly what name b n : Api cfg Unit).cmd := by
  unfold Api.checkExactly
  rw [Program.cmd_ite]
  exact .ite (fun _ => quiet_neutral.ctxFail ..) fun _ => .pure _

theorem prepares_cipherBuild (what : Bytes) (max : Nat) (a : Api.CipherArgs) :
    Prepares (Api.cipherBuild what max a : Api cfg Bytes).cmd (printValue (.obj a.members)) := by
  apply Prepares.after (quiet_neutral.checkKid ..)
  rw [Program.cmd_ite]
  apply Prepares.ite (fun _ => .refuse ..)
  intro _
  apply Prepares.after (quiet_neutral.checkSize ..)
  apply Prepares.after (quiet_checkExactly ..)
  apply Prepares.after (quiet_checkExactly ..)
  apply Prepares.after (quiet_neutral.checkAtMost ..)
  apply Prepares.after (quiet_checkPeerArgs ..)
  apply Prepares.after (quiet_neutral.checkAtMost ..)
  exact .printObject _

theorem prepares_wrapBody (what : Bytes) (a : Api.WrapArgs) :
    Prepares (Api.buildWrapBody what a : Api cfg Bytes).cmd (printValue (.obj a.members)) := by
  apply Prepares.after (quiet_neutral.checkKid ..)
  simp only [Program.cmd_ite]
  apply Prepares.ite (fun _ => .refuse ..)
  intro _
  apply Prepares.ite (fun _ => .refuse ..)
  intro _
  apply Prepares.after (quiet_checkPeerArgs ..)
  apply Prepares.after (quiet_neutral.checkAtMost ..)
  apply Prepares.after (quiet_checkExactly ..)
  exact .printObject _

/-- A post whose body has been put together, and what is read off the object that answers it. -/
theorem Heard.post {α : Type} {x : Cmd Bytes} {path scope : Bytes} {ms : List (Bytes × Json)} {parse : Json → Cmd α}
    {reading : Json → Option α} (hx : Prepares x (printValue (.obj ms)))
    (hparse : ∀ root, Renders (parse root) (reading root)) :
    Heard (KeyUse.post path scope ms) reading (x >>= fun body =>
      (Api.requestJson .post path (some body) (some scope) : Api cfg Json).cmd >>= parse) := by
  apply Heard.bind_yields hx.quiet hx.yields
  rintro body rfl
  exact Heard.asked (c := KeyUse.post path scope ms) rfl rfl hparse

theorem prepares_hmacBuild (what kid : Bytes) (alg : Option Bytes) (msg : Bytes) (peer : Peer) :
    Prepares (Api.hmacBuild what kid alg msg none peer : Api cfg Bytes).cmd (printValue (.obj
      (strMember "kid" kid ++ b64Member "msg" msg ++ [] ++ optStrMember "alg" alg ++ peer.members))) := by
  apply Prepares.after (quiet_neutral.checkKid ..)
  apply Prepares.after (quiet_neutral.checkSize ..)
  apply Prepares.after (.pure ())
  apply Prepares.after (quiet_checkPeerArgs ..)
  simp only [Program.cmd_ite]
  apply Prepares.ite (fun _ => .refuse ..); intro _
  apply Prepares.ite (fun _ => .refuse ..); intro _
  exact .printObject _

theorem prepares_mldsaBuild (what kid msg : Bytes) (sigCtx : Buf) :
    Prepares (Api.mldsaBuild what kid msg none sigCtx : Api cfg Bytes).cmd (printValue (.obj
      (strMember "kid" kid ++ b64Member "msg" msg ++ [] ++ optB64Member "ctx" sigCtx))) := by
  apply Prepares.after (quiet_neutral.checkKid ..)
  apply Prepares.after (quiet_neutral.checkSize ..)
  apply Prepares.after (.pure ())
  apply Prepares.after (quiet_neutral.checkAtMost ..)
  exact .printObject _

theorem quiet_clearError : Quiet clearError := quiet_neutral.clearError

theorem heard_wrapRequest (a : Api.WrapArgs) (path field : String) :
    Heard (KeyUse.post (lit path) (useScope a.kid) a.members) (readB64 field)
      (Api.wrapRequest path field a : Api cfg Bytes).cmd := by
  apply Heard.bind quiet_clearError; intro _
  have hbody : Prepares (Api.buildWrapBody (lit path) a : Api cfg Bytes).cmd (printValue (.obj a.members)) :=
    prepares_wrapBody (lit path) a
  apply Heard.bind_yields hbody.quiet hbody.yields
  rintro body rfl
  apply Heard.bind quiet_neutral.need; intro _
  exact Heard.asked (c := KeyUse.post (lit path) (useScope a.kid) a.members) rfl rfl fun root =>
    renders_answeredB64 root _ field

theorem heard_keyUse (u : KeyUse) : Heard u.request u.reading (u.cmd cfg) := by
  have hkid : ∀ what kid, Quiet (Api.checkKid what kid : Api cfg Unit).cmd := fun what kid => quiet_neutral.checkKid ..
  have hsize : ∀ what name b max more, Quiet (Api.checkSize what name b max more : Api cfg Unit).cmd :=
    fun what name b max more => quiet_neutral.checkSize ..
  have hmost : ∀ what name b max, Quiet (Api.checkAtMost what name b max : Api cfg Unit).cmd :=
    fun what name b max => quiet_neutral.checkAtMost ..
  cases u with
  | sign kid alg msg sigCtx =>
    apply Heard.bind quiet_clearError; intro _
    apply Heard.bind (hkid ..); intro _
    apply Heard.bind (quiet_notEmpty ..); intro _
    apply Heard.bind (hsize ..); intro _
    apply Heard.bind (hmost ..); intro _
    exact Heard.post (.printObject _) fun root => renders_answeredB64 root _ "sign"
  | ecdh kid peer alg =>
    apply Heard.bind quiet_clearError; intro _
    apply Heard.bind (hkid ..); intro _
    apply Heard.bind (quiet_checkPeerArgs ..); intro _
    dsimp only
    rw [Program.cmd_ite]
    apply Heard.ite (fun _ => Heard.refused _ _ _ _); intro _
    exact Heard.post (.printObject _) fun root => renders_answeredB64 root _ "ecdh"
  | hmac kid alg msg peer =>
    apply Heard.bind quiet_clearError; intro _
    exact Heard.post (prepares_hmacBuild ..) fun root => renders_answeredB64 root _ "mac"
  | encrypt kid alg msg aad peer hkdfCtx =>
    apply Heard.bind quiet_clearError; intro _
    exact Heard.post (prepares_cipherBuild ..) renders_parseCiphertext
  | decrypt a =>
    apply Heard.bind quiet_clearError; intro _
    exact Heard.post (prepares_cipherBuild ..) renders_parsePlaintext
  | wrap a => exact heard_wrapRequest a "crypto/cipher/wrap" "wrapped"
  | unwrap a => exact heard_wrapRequest a "crypto/cipher/unwrap" "unwrapped"
  | mlkemEncaps kid =>
    apply Heard.bind quiet_clearError; intro _
    apply Heard.bind (hkid ..); intro _
    apply Heard.post (.printObject _)
    intro root
    change Renders _ (readEncaps root)
    unfold readEncaps readB64
    dsimp only
    cases (root.getString (lit "ct")).filter (· ≠ []) with
    | none => exact Renders.ctxFail ..
    | some s =>
      apply Renders.need_bind
      simp only [Option.bind_some]
      cases (b64StdDecode s s.length).filter (· ≠ []) with
      | none => exact Renders.ctxFail ..
      | some ct =>
        cases Api.decodeSs root with
        | none => exact Renders.ctxFail ..
        | some ss => exact Renders.pure _
  | mlkemDecaps kid ct =>
    apply Heard.bind quiet_clearError; intro _
    apply Heard.bind (hkid ..); intro _
    apply Heard.bind (hsize ..); intro _
    apply Heard.post (.printObject _)
    intro root
    apply Renders.need_bind
    change Renders _ (readSecret root)
    unfold readSecret
    cases Api.decodeSs root with
    | none => exact Renders.ctxFail ..
    | some ss => exact Renders.pure _
  | mldsaSign kid msg sigCtx =>
    apply Heard.bind quiet_clearError; intro _
    apply Heard.post (prepares_mldsaBuild ..)
    intro root
    change Renders _ (readSignature root)
    exact (renders_answeredB64 root _ "sign").map _
  | keyCreate p =>
    apply Heard.bind quiet_clearError; intro _
    dsimp only
    simp only [Program.cmd_ite]
    apply Heard.ite (fun _ => Heard.refused _ _ _ _); intro _
    apply Heard.ite (fun _ => Heard.refused _ _ _ _); intro _
    exact Heard.post (.printObject _) fun root => renders_answeredKid root _
  | keyImport p =>
    change Heard _ _ (Api.keyImport p : Api cfg Bytes).cmd
    unfold Api.keyImport
    rw [Program.cmd_ite]
    apply Heard.ite (fun _ => Heard.thrown _); intro _
    apply Heard.bind quiet_clearError; intro _
    dsimp only
    simp only [Program.cmd_ite]
    apply Heard.ite (fun _ => Heard.refused _ _ _ _); intro _
    apply Heard.ite (fun _ => Heard.refused _ _ _ _); intro _
    exact Heard.post (.printObject _) fun root => renders_answeredKid root _
  | keyDerive kid label type extKid pubkey mode descr =>
    apply Heard.bind quiet_clearError; intro _
    dsimp only
    simp only [Program.cmd_ite]
    iterate 7 apply Heard.ite (fun _ => Heard.refused _ _ _ _); intro _
    exact Heard.post (.printObject _) fun root => renders_answeredKid root _

end

/-- What such a call returns is what an object says that answered its own request with a good status, and where there is
memory it returns whatever such an answer says. -/
theorem key_use_heard (cfg : Config) (u : KeyUse) {s s' : Ctx} {es : List Event} {r : Except Rc u.Out}
    (h : Runs (u.cmd cfg) s es r s') :
    (∀ v, r = .ok v → u.request.Tells u.reading es v) ∧
      (Granted es → ∀ v, u.request.Tells u.reading es v → r = .ok v) :=
  let hr := heard_keyUse u s es r s' h
  ⟨hr.sound, hr.complete⟩

/-- A device that hands out a signature. -/
def signedAnswer : Answer := .done ⟨200, some (lit "\x7b\"sign\":\"AQID\"\x7d")⟩

abbrev sampleSign : KeyUse := .sign sampleKid (lit "SHA256WithECDSA") (lit "m") (.null 0)

theorem sample_signature_heard :
    scriptResult (sampleSign.cmd .standard) verifierCtx 5 [signedAnswer] = .ok [1, 2, 3] ∧
      sampleSign.request.Tells sampleSign.reading (scriptEvents (sampleSign.cmd .standard) verifierCtx 5 [signedAnswer])
        ([1, 2, 3] : Bytes) := by
  have hok : scriptResult (sampleSign.cmd .standard) verifierCtx 5 [signedAnswer] = .ok [1, 2, 3] := by decide +kernel
  exact ⟨hok, (key_use_heard .standard sampleSign (script_runs (sampleSign.cmd .standard) verifierCtx 5
    [signedAnswer])).1 _ hok⟩

end EncedoHem
