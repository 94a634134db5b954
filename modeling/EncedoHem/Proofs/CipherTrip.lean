import EncedoHem.Proofs.KeyUses
import EncedoHem.Proofs.Liveness

namespace EncedoHem
open Text Dialogue

theorem Strings.append {ms ms' : List (Bytes × Json)} (h : Strings ms) (h' : Strings ms') : Strings (ms ++ ms') := by
  intro m hm
  rcases List.mem_append.mp hm with hm | hm
  · exact h m hm
  · exact h' m hm

theorem Strings.optStr {key : String} {v : Option Bytes} (hk : ∀ c ∈ lit key, c ≠ 0)
    (hv : ∀ t, v = some t → ∀ c ∈ t, c ≠ 0) : Strings (optStrMember key v) := by
  cases v with
  | none => exact fun m hm => absurd hm List.not_mem_nil
  | some v =>
    intro m hm
    obtain rfl := List.mem_singleton.mp hm
    exact ⟨hk, v, rfl, hv v rfl⟩

theorem Strings.optB64 {key : String} {v : Option Bytes} (hk : ∀ c ∈ lit key, c ≠ 0) :
    Strings (optStrMember key (v.map b64Of)) := by
  apply Strings.optStr hk
  intro t ht
  obtain ⟨b, -, rfl⟩ := Option.map_eq_some_iff.mp ht
  exact (b64Of_written b).no_zero

/-- The bytes of a buffer that is given, empty or not. -/
def Buf.given (b : Buf) : Option Bytes := if b.isNull then none else some b.bytes

theorem b64MemberOf_eq (name : String) (b : Buf) : b64MemberOf name b = optStrMember name (b.given.map b64Of) := by
  cases b with
  | null n => rfl
  | data b => rfl

/-- Text that decodes decodes to the same, whatever the room. -/
theorem decode_same_room {α : Alphabet} {text a b : Bytes} {room room' : Nat} (ha : b64Decode α text room = some a)
    (hb : b64Decode α text room' = some b) : a = b := by
  obtain ⟨-, -, vs, hvs, hx⟩ := (b64Decode_spec α text room).2.1 a ha
  obtain ⟨-, -, ws, hws, hy⟩ := (b64Decode_spec α text room').2.1 b hb
  obtain rfl := Option.some.inj (hvs.symm.trans hws)
  exact (List.map_injective_iff.mpr fun a b => UInt8.toNat_inj.mp) (hx.symm.trans hy)

/-- A member says one thing at most. -/
theorem Carries.unique {decode : Bytes → Option Bytes} {root : Json} {key : String} {v w : Option Bytes}
    (hv : Carries decode root key v) (hw : Carries decode root key w) : v = w := by
  cases v with
  | none =>
    cases w with
    | none => rfl
    | some w =>
      obtain ⟨text, htext, -⟩ := hw
      simp [Carries, Json.has, htext] at hv
  | some v =>
    obtain ⟨text, htext, hdec⟩ := hv
    cases w with
    | none => simp [Carries, Json.has, htext] at hw
    | some w =>
      obtain ⟨text', htext', hdec'⟩ := hw
      obtain rfl := Json.str.inj (Option.some.inj (htext.symm.trans htext'))
      exact hdec.symm.trans hdec'

theorem Carries.object {decode : Bytes → Option Bytes} {root : Json} {key : String} {v : Bytes}
    (h : Carries decode root key (some v)) : root.isObject = true := by
  obtain ⟨text, htext, -⟩ := h
  cases root with
  | obj ms => rfl
  | _ => simp [Json.get] at htext

/-- What a cipher is asked to do: every argument as far as it was supplied. -/
structure CipherJob where
  kid : Bytes
  alg : Bytes
  msg : Bytes
  iv : Option Bytes
  tag : Option Bytes
  aad : Option Bytes
  extKid : Option Bytes
  pubkey : Option Bytes
  hkdfCtx : Option Bytes

/-- The object asks for it. -/
structure CipherJob.AskedBy (j : CipherJob) (root : Json) : Prop where
  kid : Carries some root "kid" (some j.kid)
  alg : Carries some root "alg" (some j.alg)
  msg : Carries fromB64 root "msg" (some j.msg)
  iv : Carries fromB64 root "iv" j.iv
  tag : Carries fromB64 root "tag" j.tag
  aad : Carries fromB64 root "aad" j.aad
  extKid : Carries some root "ext_kid" j.extKid
  pubkey : Carries fromB64 root "pubkey" j.pubkey
  hkdfCtx : Carries fromB64 root "ctx" j.hkdfCtx

/-- A body asks for one thing. -/
theorem CipherJob.AskedBy.unique {j j' : CipherJob} {root : Json} (h : j.AskedBy root) (h' : j'.AskedBy root) :
    j = j' := by
  obtain ⟨kid, alg, msg, iv, tag, aad, extKid, pubkey, hkdfCtx⟩ := j
  obtain ⟨kid', alg', msg', iv', tag', aad', extKid', pubkey', hkdfCtx'⟩ := j'
  rw [CipherJob.mk.injEq]
  exact ⟨Option.some.inj (h.kid.unique h'.kid), Option.some.inj (h.alg.unique h'.alg),
    Option.some.inj (h.msg.unique h'.msg), h.iv.unique h'.iv, h.tag.unique h'.tag, h.aad.unique h'.aad,
    h.extKid.unique h'.extKid, h.pubkey.unique h'.pubkey, h.hkdfCtx.unique h'.hkdfCtx⟩

def Api.CipherArgs.job (a : Api.CipherArgs) : CipherJob where
  kid := a.kid
  alg := a.alg
  msg := a.msg
  iv := a.iv.given
  tag := a.tag.given
  aad := a.aad.supplied
  extKid := a.peer.extKid
  pubkey := a.peer.pubkey.supplied
  hkdfCtx := a.hkdfCtx.supplied

/-- A byte string as C has it. -/
def CStr (b : Bytes) : Prop := ∀ c ∈ b, c ≠ 0

instance (b : Bytes) : Decidable (CStr b) := inferInstanceAs (Decidable (∀ c ∈ b, c ≠ 0))

/-- The names among the arguments are C strings. -/
structure Api.CipherArgs.CStrings (a : Api.CipherArgs) : Prop where
  kid : CStr a.kid
  alg : CStr a.alg
  extKid : ∀ t, a.peer.extKid = some t → CStr t

/-- The names of the members that the bodies have. -/
theorem cipherNames_cstr :
    ∀ key ∈ ["kid", "msg", "alg", "iv", "tag", "aad", "ext_kid", "pubkey", "ctx"], CStr (lit key) := by
  decide +kernel

theorem CStr.of_some {b : Bytes} (h : CStr b) : ∀ t, some b = some t → CStr t := by
  intro t ht
  obtain rfl := Option.some.inj ht
  exact h

theorem Peer.members_strings {peer : Peer} (h : ∀ t, peer.extKid = some t → CStr t) : Strings peer.members := by
  unfold Peer.members
  rw [optB64Member_eq]
  have hext : Strings (optStrMember "ext_kid" peer.extKid) := .optStr (cipherNames_cstr _ (by simp)) h
  exact hext.append (.optB64 (cipherNames_cstr _ (by simp)))

theorem Api.CipherArgs.CStrings.strings {a : Api.CipherArgs} (h : a.CStrings) : Strings a.members := by
  unfold Api.CipherArgs.members
  simp only [strMember_eq, b64Member_eq, optB64Member_eq, b64MemberOf_eq]
  have hkid : Strings (optStrMember "kid" (some a.kid)) := .optStr (cipherNames_cstr _ (by simp)) h.kid.of_some
  have halg : Strings (optStrMember "alg" (some a.alg)) := .optStr (cipherNames_cstr _ (by simp)) h.alg.of_some
  have hmsg : Strings (optStrMember "msg" (some (b64Of a.msg))) :=
    .optB64 (v := some a.msg) (cipherNames_cstr _ (by simp))
  have hiv : Strings (optStrMember "iv" (a.iv.given.map b64Of)) := .optB64 (cipherNames_cstr _ (by simp))
  have htag : Strings (optStrMember "tag" (a.tag.given.map b64Of)) := .optB64 (cipherNames_cstr _ (by simp))
  have haad : Strings (optStrMember "aad" (a.aad.supplied.map b64Of)) := .optB64 (cipherNames_cstr _ (by simp))
  have hctx : Strings (optStrMember "ctx" (a.hkdfCtx.supplied.map b64Of)) := .optB64 (cipherNames_cstr _ (by simp))
  have hpeer : Strings a.peer.members := Peer.members_strings h.extKid
  exact ((((((hkid.append hmsg).append halg).append hiv).append htag).append haad).append hpeer).append hctx

theorem Api.CipherArgs.asked (a : Api.CipherArgs) : a.job.AskedBy (.obj a.members) := by
  refine ⟨carries_str ?_, carries_str ?_, carries_b64 ?_, carries_b64 ?_, carries_b64 ?_, carries_b64 ?_, carries_str ?_,
    carries_b64 ?_, carries_b64 ?_⟩
  all_goals
    simp +decide [Api.CipherArgs.members, Api.CipherArgs.job, Peer.members, strMember_eq, b64Member_eq, optB64Member_eq,
      b64MemberOf_eq]

/-- What a wrapping is asked to do. -/
structure WrapJob where
  kid : Bytes
  alg : Option Bytes
  msg : Bytes
  extKid : Option Bytes
  pubkey : Option Bytes
  hkdfCtx : Option Bytes
  iv : Option Bytes

/-- The object asks for it. -/
structure WrapJob.AskedBy (j : WrapJob) (root : Json) : Prop where
  kid : Carries some root "kid" (some j.kid)
  alg : Carries some root "alg" j.alg
  msg : Carries fromB64 root "msg" (some j.msg)
  extKid : Carries some root "ext_kid" j.extKid
  pubkey : Carries fromB64 root "pubkey" j.pubkey
  hkdfCtx : Carries fromB64 root "ctx" j.hkdfCtx
  iv : Carries fromB64 root "iv" j.iv

def Api.WrapArgs.job (a : Api.WrapArgs) : WrapJob where
  kid := a.kid
  alg := a.alg
  msg := a.msg.bytes
  extKid := a.peer.extKid
  pubkey := a.peer.pubkey.supplied
  hkdfCtx := a.hkdfCtx.supplied
  iv := a.iv.given

structure Api.WrapArgs.CStrings (a : Api.WrapArgs) : Prop where
  kid : CStr a.kid
  alg : ∀ t, a.alg = some t → CStr t
  extKid : ∀ t, a.peer.extKid = some t → CStr t

theorem Api.WrapArgs.CStrings.strings {a : Api.WrapArgs} (h : a.CStrings) : Strings a.members := by
  unfold Api.WrapArgs.members
  simp only [strMember_eq, b64Member_eq, optB64Member_eq, b64MemberOf_eq]
  have hkid : Strings (optStrMember "kid" (some a.kid)) := .optStr (cipherNames_cstr _ (by simp)) h.kid.of_some
  have hmsg : Strings (optStrMember "msg" (some (b64Of a.msg.bytes))) :=
    .optB64 (v := some a.msg.bytes) (cipherNames_cstr _ (by simp))
  have halg : Strings (optStrMember "alg" a.alg) := .optStr (cipherNames_cstr _ (by simp)) h.alg
  have hctx : Strings (optStrMember "ctx" (a.hkdfCtx.supplied.map b64Of)) := .optB64 (cipherNames_cstr _ (by simp))
  have hiv : Strings (optStrMember "iv" (a.iv.given.map b64Of)) := .optB64 (cipherNames_cstr _ (by simp))
  have hpeer : Strings a.peer.members := Peer.members_strings h.extKid
  exact ((((hkid.append hmsg).append halg).append hpeer).append hctx).append hiv

theorem Api.WrapArgs.asked (a : Api.WrapArgs) : a.job.AskedBy (.obj a.members) := by
  refine ⟨carries_str ?_, carries_str ?_, carries_b64 ?_, carries_str ?_, carries_b64 ?_, carries_b64 ?_, carries_b64 ?_⟩
  all_goals
    simp +decide [Api.WrapArgs.members, Api.WrapArgs.job, Peer.members, strMember_eq, b64Member_eq, optB64Member_eq,
      b64MemberOf_eq]

/-- The answer says what a cipher made of its message. -/
structure Ciphertext.SaidBy (ct : Ciphertext) (root : Json) : Prop where
  ciphertext : Carries fromB64 root "ciphertext" (some ct.ciphertext)
  iv : Carries fromB64 root "iv" ct.iv
  tag : Carries fromB64 root "tag" ct.tag

/-- A device's cipher. What it decrypts under the same arguments is what it encrypted. -/
structure CipherDevice where
  encrypt : CipherJob → Option Ciphertext
  decrypt : CipherJob → Option Bytes
  ivLen : ∀ j ct iv, encrypt j = some ct → ct.iv = some iv → iv.length = cipherIvLen
  tagLen : ∀ j ct tag, encrypt j = some ct → ct.tag = some tag → tag.length = cipherTagLen
  inverse : ∀ j ct, j.iv = none → j.tag = none → encrypt j = some ct →
    decrypt { j with msg := ct.ciphertext, iv := ct.iv, tag := ct.tag } = some j.msg

/-- A device's key wrap, and its inverse. -/
structure WrapDevice where
  wrap : WrapJob → Option Bytes
  unwrap : WrapJob → Option Bytes
  inverse : ∀ j w, wrap j = some w → unwrap { j with msg := w } = some j.msg

/-- What is posted to the path is answered well only with what `f` makes of what the body asks for. -/
def Serves {J V : Type} (path : String) (asked : J → Json → Prop) (said : V → Json → Prop) (f : J → Option V)
    (es : List Event) : Prop :=
  ∀ scope req resp, (⟨.send scope req, .done resp⟩ : Event) ∈ es → req.method = .post →
    req.path = lit "/api/" ++ lit path → resp.fault = none →
    ∀ body root j, req.body = some body → jsonParse body = some root → asked j root →
      ∃ v text answer, f j = some v ∧ resp.body = some text ∧ jsonParse (cstr text) = some answer ∧ said v answer

/-- The device encrypts and decrypts as it should whenever it answers well. -/
structure CipherDevice.Serves (dev : CipherDevice) (es : List Event) : Prop where
  encrypt : EncedoHem.Serves "crypto/cipher/encrypt" CipherJob.AskedBy Ciphertext.SaidBy dev.encrypt es
  decrypt : EncedoHem.Serves "crypto/cipher/decrypt" CipherJob.AskedBy
    (fun m root => Carries fromB64 root "plaintext" (some m)) dev.decrypt es

structure WrapDevice.Serves (dev : WrapDevice) (es : List Event) : Prop where
  wrap : EncedoHem.Serves "crypto/cipher/wrap" WrapJob.AskedBy
    (fun m root => Carries fromB64 root "wrapped" (some m)) dev.wrap es
  unwrap : EncedoHem.Serves "crypto/cipher/unwrap" WrapJob.AskedBy
    (fun m root => Carries fromB64 root "unwrapped" (some m)) dev.unwrap es

section
variable {path : String} {scope : Bytes} {ms : List (Bytes × Json)} {es : List Event} {J V : Type}
  {asked : J → Json → Prop} {said : V → Json → Prop} {f : J → Option V} {j : J}

/-- The final answer is that to the very body that the call printed. -/
theorem Serves.final (hs : Serves path asked said f es) (hne : ms ≠ []) (hms : Strings ms) (hj : asked j (.obj ms))
    {resp : Response} (hf : (KeyUse.post (lit path) scope ms).Final es (.done resp)) (hgood : resp.fault = none) :
    ∃ v text answer, f j = some v ∧ resp.body = some text ∧ jsonParse (cstr text) = some answer ∧ said v answer := by
  obtain ⟨pre, post, scope', req, rfl, hsent, -⟩ := hf
  simp only [Call.sent, KeyUse.post, EmptyCall.ask, Bool.and_eq_true] at hsent
  obtain ⟨⟨⟨⟨-, -⟩, hmethod⟩, hpath⟩, hbody⟩ := hsent
  exact hs _ req resp (List.mem_append_right pre List.mem_cons_self) (of_decide_eq_true hmethod)
    (of_decide_eq_true hpath) hgood _ _ j (of_decide_eq_true hbody) (jsonParse_printValue hne hms) hj

/-- Whatever the call tells, the device's function has said. -/
theorem Serves.told {W : Type} {reading : Json → Option W} {w : W} (hs : Serves path asked said f es) (hne : ms ≠ [])
    (hms : Strings ms) (hj : asked j (.obj ms)) (h : (KeyUse.post (lit path) scope ms).Tells reading es w) :
    ∃ v answer, f j = some v ∧ said v answer ∧ reading answer = some w := by
  obtain ⟨resp, text, root, hh, hw⟩ := h
  obtain ⟨v, text', answer, hv, hbody, hparsed, hsaid⟩ := hs.final hne hms hj hh.final hh.good
  obtain rfl := Option.some.inj (hh.body.symm.trans hbody)
  obtain rfl := Option.some.inj (hh.parsed.symm.trans hparsed)
  exact ⟨v, root, hv, hsaid, hw⟩

/-- A good final answer tells what the device's function says. -/
theorem Serves.tells {W : Type} {reading : Json → Option W} {w : W} (hs : Serves path asked said f es) (hne : ms ≠ [])
    (hms : Strings ms) (hj : asked j (.obj ms)) {resp : Response}
    (hf : (KeyUse.post (lit path) scope ms).Final es (.done resp)) (hgood : resp.fault = none)
    (hread : ∀ v answer, f j = some v → said v answer → answer.isObject = true ∧ reading answer = some w) :
    (KeyUse.post (lit path) scope ms).Tells reading es w := by
  obtain ⟨v, text, answer, hv, hbody, hparsed, hsaid⟩ := hs.final hne hms hj hf hgood
  obtain ⟨hobj, hw⟩ := hread v answer hv hsaid
  exact ⟨resp, text, answer, ⟨hf, hgood, hbody, hparsed, hobj⟩, hw⟩

end

theorem readB64_carries {key : String} {root : Json} {v w : Bytes} (h : Carries fromB64 root key (some v))
    (hw : readB64 key root = some w) : w = v ∧ w ≠ [] := by
  obtain ⟨text, htext, hdec⟩ := h
  obtain ⟨s, hs, hw⟩ := Option.bind_eq_some_iff.mp hw
  obtain ⟨hs, -⟩ := Option.filter_eq_some_iff.mp hs
  obtain ⟨hw, hne⟩ := Option.filter_eq_some_iff.mp hw
  simp only [Json.getString, htext, Option.some.injEq] at hs
  subst hs
  exact ⟨Option.some.inj (hw.symm.trans hdec), by simpa using hne⟩

theorem readB64_of_carries {key : String} {root : Json} {v : Bytes} (h : Carries fromB64 root key (some v))
    (hne : v ≠ []) : readB64 key root = some v := by
  obtain ⟨text, htext, hdec⟩ := h
  have htne : text ≠ [] := by
    rintro rfl
    exact hne (Option.some.inj (hdec.symm.trans rfl))
  have hdec : b64StdDecode text text.length = some v := hdec
  have hs : (root.getString (lit key)).filter (· ≠ []) = some text := by
    simp only [Json.getString, htext]
    exact Option.filter_some_pos (by simpa using htne)
  rw [readB64, hs, Option.bind_some, hdec, Option.filter_some_pos (by simpa using hne)]

/-- A member of fixed length is handed on as it was said. -/
theorem decodeFixedField_carries {root : Json} {name : String} {want : Nat} {v w : Option Bytes}
    (h : Carries fromB64 root name v) (hv : ∀ b, v = some b → b.length = want) (hpos : 0 < want)
    (hw : Api.decodeFixedField root name want = some w) : w = v := by
  cases v with
  | none =>
    have hget : root.get (lit name) = none := by simpa [Carries, Json.has] using h
    simpa [Api.decodeFixedField, Json.getString, hget] using hw.symm
  | some b =>
    obtain ⟨text, htext, hdec⟩ := h
    have htne : text ≠ [] := by
      rintro rfl
      have hb : b = [] := Option.some.inj (hdec.symm.trans rfl)
      have hlen := hv b rfl
      simp [hb] at hlen
      omega
    have hdec : b64StdDecode text text.length = some b := hdec
    unfold Api.decodeFixedField at hw
    simp only [Json.getString, htext, Option.filter_some_pos (p := fun s => decide (s ≠ [])) (by simpa using htne)] at hw
    split at hw
    · cases hw
    · rename_i b' hb'
      obtain ⟨hb', -⟩ := Option.filter_eq_some_iff.mp hb'
      rw [← Option.some.inj hw, decode_same_room hdec hb']

theorem readPlaintext_carries {root : Json} {v : Bytes} (h : Carries fromB64 root "plaintext" (some v)) :
    readPlaintext root = some v := by
  obtain ⟨text, htext, hdec⟩ := h
  simp only [readPlaintext, Json.getString, htext, Option.bind_some]
  by_cases hne : text = []
  · subst hne
    exact hdec
  · rw [if_neg hne]
    exact hdec

/-- The ciphertext that is handed on is the device's. -/
theorem readCiphertext_said {dev : CipherDevice} {j : CipherJob} {root : Json} {v ct : Ciphertext}
    (hv : dev.encrypt j = some v) (hs : v.SaidBy root) (h : readCiphertext root = some ct) : ct = v := by
  obtain ⟨c, hc, h⟩ := Option.bind_eq_some_iff.mp h
  obtain ⟨iv, hiv, h⟩ := Option.bind_eq_some_iff.mp h
  obtain ⟨tag, htag, h⟩ := Option.bind_eq_some_iff.mp h
  obtain rfl := Option.some.inj h
  obtain ⟨rfl, -⟩ := readB64_carries hs.ciphertext hc
  have hiv := decodeFixedField_carries hs.iv (fun b => dev.ivLen j v b hv) (by decide) hiv
  have htag := decodeFixedField_carries hs.tag (fun b => dev.tagLen j v b hv) (by decide) htag
  rw [hiv, htag]

/-- What comes with a ciphertext as the caller passes it back. -/
def Buf.back : Option Bytes → Buf
  | none => .null 0
  | some b => .data b

@[simp] theorem Buf.given_back (v : Option Bytes) : (Buf.back v).given = v := by
  cases v with
  | none => rfl
  | some b => rfl

@[simp] theorem Buf.given_null (n : Nat) : (Buf.null n).given = none := rfl

/-- The arguments that undo an encryption. -/
def Api.CipherArgs.undo (a : Api.CipherArgs) (ct : Ciphertext) : Api.CipherArgs :=
  { a with msg := ct.ciphertext, iv := .back ct.iv, tag := .back ct.tag }

/-- The arguments of an encryption. -/
def encryptArgs (kid alg msg : Bytes) (aad : Buf) (peer : Peer) (hkdfCtx : Buf) : Api.CipherArgs :=
  ⟨kid, alg, msg, .null 0, .null 0, aad, peer, hkdfCtx⟩

theorem Api.CipherArgs.members_ne (a : Api.CipherArgs) : a.members ≠ [] := by
  simp [Api.CipherArgs.members, strMember]

theorem Api.WrapArgs.members_ne (a : Api.WrapArgs) : a.members ≠ [] := by
  simp [Api.WrapArgs.members, strMember]

section
variable {cfg : Config}

/-- The request of a decryption. -/
def decryptCall (a : Api.CipherArgs) : Call := (KeyUse.decrypt a).request

def unwrapCall (a : Api.WrapArgs) : Call := (KeyUse.unwrap a).request

/-- Decrypting what an encryption returned gives the message back, whatever lies between the two calls. -/
theorem decrypt_encrypted (dev : CipherDevice) {kid alg msg : Bytes} {aad : Buf} {peer : Peer} {hkdfCtx : Buf}
    {ct : Ciphertext} {s₁ s₁' s₂ s₂' : Ctx} {es₁ es₂ : List Event} {r : Except Rc Bytes}
    (hc : (encryptArgs kid alg msg aad peer hkdfCtx).CStrings)
    (henc : Runs (Api.encrypt kid alg msg aad peer hkdfCtx : Api cfg Ciphertext).cmd s₁ es₁ (.ok ct) s₁')
    (h₁ : dev.Serves es₁)
    (hdec : Runs (Api.decrypt ((encryptArgs kid alg msg aad peer hkdfCtx).undo ct) : Api cfg Bytes).cmd s₂ es₂ r s₂')
    (h₂ : dev.Serves es₂) :
    (∀ m, r = .ok m → m = msg) ∧
      (Granted es₂ → ∀ resp, (decryptCall ((encryptArgs kid alg msg aad peer hkdfCtx).undo ct)).Final es₂ (.done resp) →
        resp.fault = none → r = .ok msg) := by
  have hheard₁ := heard_keyUse (.encrypt kid alg msg aad peer hkdfCtx) s₁ es₁ (.ok ct) s₁' henc
  have hheard₂ := heard_keyUse (.decrypt ((encryptArgs kid alg msg aad peer hkdfCtx).undo ct)) s₂ es₂ r s₂' hdec
  obtain ⟨v, root, hv, hsaid, hread⟩ := h₁.encrypt.told (Api.CipherArgs.members_ne _) hc.strings
    (Api.CipherArgs.asked _) (hheard₁.sound ct rfl)
  obtain rfl := readCiphertext_said hv hsaid hread
  have hback : dev.decrypt ((encryptArgs kid alg msg aad peer hkdfCtx).undo ct).job = some msg := by
    have hinv := dev.inverse _ ct rfl rfl hv
    simpa [encryptArgs, Api.CipherArgs.undo, Api.CipherArgs.job] using hinv
  have hc' : ((encryptArgs kid alg msg aad peer hkdfCtx).undo ct).CStrings := ⟨hc.kid, hc.alg, hc.extKid⟩
  constructor
  · intro m hm
    obtain ⟨w, answer, hw, htold, hplain⟩ := h₂.decrypt.told (Api.CipherArgs.members_ne _) hc'.strings
      (Api.CipherArgs.asked _) (hheard₂.sound m hm)
    obtain rfl := Option.some.inj (hback.symm.trans hw)
    exact Option.some.inj (hplain.symm.trans (readPlaintext_carries htold))
  · intro hg resp hf hgood
    apply hheard₂.complete hg msg
    apply h₂.decrypt.tells (Api.CipherArgs.members_ne _) hc'.strings (Api.CipherArgs.asked _) hf hgood
    intro w answer hw htold
    obtain rfl := Option.some.inj (hback.symm.trans hw)
    exact ⟨htold.object, readPlaintext_carries htold⟩

/-- A wrapping succeeds for something only. -/
theorem yields_wrap (a : Api.WrapArgs) : Yields (Api.wrap a : Api cfg Bytes).cmd fun _ => a.msg.bytes ≠ [] := by
  apply Yields.bind; intro _
  apply Yields.bind_of (W := fun _ => a.msg.bytes ≠ [])
  · apply Yields.bind; intro _
    rw [Program.cmd_ite]
    apply Yields.ite (fun _ => yields_ctxFail ..)
    intro h
    have hne : a.msg.bytes ≠ [] := by
      cases hb : a.msg with
      | null n => simp [hb, Buf.isNull] at h
      | data b =>
        rintro rfl
        simp [hb, Buf.isNull, Buf.len] at h
    exact ⟨fun s es r s' _ _ _ => hne⟩
  · intro body hne
    exact ⟨fun s es r s' _ _ _ => hne⟩

/-- Unwrapping what a wrapping returned gives the material back. -/
theorem unwrap_wrapped (dev : WrapDevice) {a : Api.WrapArgs} {w : Bytes} {s₁ s₁' s₂ s₂' : Ctx} {es₁ es₂ : List Event}
    {r : Except Rc Bytes} (hc : a.CStrings) (hwrap : Runs (Api.wrap a : Api cfg Bytes).cmd s₁ es₁ (.ok w) s₁')
    (h₁ : dev.Serves es₁)
    (hunwrap : Runs (Api.unwrap { a with msg := .data w } : Api cfg Bytes).cmd s₂ es₂ r s₂') (h₂ : dev.Serves es₂) :
    (∀ m, r = .ok m → m = a.msg.bytes) ∧
      (Granted es₂ → ∀ resp, (unwrapCall { a with msg := .data w }).Final es₂ (.done resp) → resp.fault = none →
        r = .ok a.msg.bytes) := by
  have hne : a.msg.bytes ≠ [] := (yields_wrap a).run s₁ es₁ (.ok w) s₁' hwrap w rfl
  have hheard₁ := heard_keyUse (.wrap a) s₁ es₁ (.ok w) s₁' hwrap
  have hheard₂ := heard_keyUse (.unwrap { a with msg := .data w }) s₂ es₂ r s₂' hunwrap
  obtain ⟨v, root, hv, hsaid, hread⟩ := h₁.wrap.told a.members_ne hc.strings a.asked (hheard₁.sound w rfl)
  obtain ⟨rfl, -⟩ := readB64_carries hsaid hread
  have hback : dev.unwrap (Api.WrapArgs.job { a with msg := .data w }) = some a.msg.bytes := dev.inverse _ w hv
  have hc' : Api.WrapArgs.CStrings { a with msg := .data w } := ⟨hc.kid, hc.alg, hc.extKid⟩
  constructor
  · intro m hm
    obtain ⟨u, answer, hu, htold, hgot⟩ := h₂.unwrap.told (Api.WrapArgs.members_ne _) hc'.strings
      (Api.WrapArgs.asked _) (hheard₂.sound m hm)
    obtain rfl := Option.some.inj (hback.symm.trans hu)
    exact (readB64_carries htold hgot).1
  · intro hg resp hf hgood
    apply hheard₂.complete hg a.msg.bytes
    apply h₂.unwrap.tells (Api.WrapArgs.members_ne _) hc'.strings (Api.WrapArgs.asked _) hf hgood
    intro u answer hu htold
    obtain rfl := Option.some.inj (hback.symm.trans hu)
    exact ⟨htold.object, readB64_of_carries htold hne⟩

end

/-- A device undoes what it did: a decryption under the same arguments gives the message back, an unwrapping the
material, through everything that client and device print, parse, encode and decode on the way. -/
theorem ciphers_round_trip (cfg : Config) (cipher : CipherDevice) (wrapper : WrapDevice) :
    (∀ kid alg msg aad peer hkdfCtx ct s₁ s₁' s₂ s₂' es₁ es₂ r, (encryptArgs kid alg msg aad peer hkdfCtx).CStrings →
      Runs (Api.encrypt kid alg msg aad peer hkdfCtx : Api cfg Ciphertext).cmd s₁ es₁ (.ok ct) s₁' → cipher.Serves es₁ →
      Runs (Api.decrypt ((encryptArgs kid alg msg aad peer hkdfCtx).undo ct) : Api cfg Bytes).cmd s₂ es₂ r s₂' →
      cipher.Serves es₂ →
      (∀ m, r = .ok m → m = msg) ∧ (Granted es₂ → ∀ resp,
        (decryptCall ((encryptArgs kid alg msg aad peer hkdfCtx).undo ct)).Final es₂ (.done resp) →
        resp.fault = none → r = .ok msg)) ∧
    ∀ (a : Api.WrapArgs) w s₁ s₁' s₂ s₂' es₁ es₂ r, a.CStrings →
      Runs (Api.wrap a : Api cfg Bytes).cmd s₁ es₁ (.ok w) s₁' → wrapper.Serves es₁ →
      Runs (Api.unwrap { a with msg := .data w } : Api cfg Bytes).cmd s₂ es₂ r s₂' → wrapper.Serves es₂ →
      (∀ m, r = .ok m → m = a.msg.bytes) ∧ (Granted es₂ → ∀ resp,
        (unwrapCall { a with msg := .data w }).Final es₂ (.done resp) → resp.fault = none → r = .ok a.msg.bytes) := by
  constructor
  · intro kid alg msg aad peer hkdfCtx ct s₁ s₁' s₂ s₂' es₁ es₂ r hc henc h₁ hdec h₂
    exact decrypt_encrypted cipher hc henc h₁ hdec h₂
  · intro a w s₁ s₁' s₂ s₂' es₁ es₂ r hc hwrap h₁ hunwrap h₂
    exact unwrap_wrapped wrapper hc hwrap h₁ hunwrap h₂

theorem Serves.of_sent {J V : Type} {path : String} {asked : J → Json → Prop} {said : V → Json → Prop}
    {f : J → Option V} {es : List Event} {scope : Option Bytes} {req : Request} {resp : Response}
    (hes : es.filterMap Event.sent = [(scope, req, .done resp)])
    (h : req.path = lit "/api/" ++ lit path → ∀ body root j, req.body = some body → jsonParse body = some root →
      asked j root → ∃ v text answer, f j = some v ∧ resp.body = some text ∧
        jsonParse (cstr text) = some answer ∧ said v answer) : Serves path asked said f es := by
  intro scope' req' resp' hmem _ hpath _ body root j hbody hroot hj
  have hsent : (scope', req', Answer.done resp') ∈ es.filterMap Event.sent := List.mem_filterMap.mpr ⟨_, hmem, rfl⟩
  rw [hes] at hsent
  obtain ⟨rfl, hrest⟩ := Prod.mk.inj (List.mem_singleton.mp hsent)
  obtain ⟨rfl, hresp⟩ := Prod.mk.inj hrest
  obtain rfl := Answer.done.inj hresp
  exact h hpath body root j hbody hroot hj

/-- A cipher that puts a byte in front of the message. -/
def prefixCipher : CipherDevice where
  encrypt j := some ⟨42 :: j.msg, none, none⟩
  decrypt j := some j.msg.tail
  ivLen j ct iv h hiv := by
    obtain rfl := Option.some.inj h
    cases hiv
  tagLen j ct tag h htag := by
    obtain rfl := Option.some.inj h
    cases htag
  inverse j ct _ _ h := by
    obtain rfl := Option.some.inj h
    rfl

/-- A wrap that puts a byte in front of the material. -/
def prefixWrap : WrapDevice where
  wrap j := some (42 :: j.msg)
  unwrap j := some j.msg.tail
  inverse j w h := by
    obtain rfl := Option.some.inj h
    rfl

/-- An object with one member in base64. -/
def b64Object (key : String) (b : Bytes) : Json := .obj [(lit key, .str (b64Of b))]

/-- The answer that holds it. -/
def b64Answer (key : String) (b : Bytes) : Response := ⟨200, some (printValue (b64Object key b))⟩

theorem b64Answer_read {key : String} {b : Bytes} (hk : ∀ c ∈ lit key, c ≠ 0)
    (hz : ∀ c ∈ printValue (b64Object key b), c ≠ 0) :
    jsonParse (cstr (printValue (b64Object key b))) = some (b64Object key b) :=
  obliging_body (List.cons_ne_nil _ _) (strings_single hk (b64Of_written b).no_zero) hz

/-- The arguments of the sample encryption, and those that undo it. -/
def sampleArgs : Api.CipherArgs := encryptArgs sampleKid (lit "AES128-ECB") [1] (.null 0) .none (.null 0)

def sampleUndo : Api.CipherArgs := sampleArgs.undo ⟨[42, 1], none, none⟩

def sampleEncrypt : Cmd Ciphertext :=
  (Api.encrypt sampleKid (lit "AES128-ECB") [1] (.null 0) .none (.null 0) : Api .standard Ciphertext).cmd

def sampleDecrypt : Cmd Bytes := (Api.decrypt sampleUndo : Api .standard Bytes).cmd

def encryptEvents : List Event := scriptEvents sampleEncrypt verifierCtx 5 [.done (b64Answer "ciphertext" [42, 1])]

def decryptEvents : List Event := scriptEvents sampleDecrypt verifierCtx 5 [.done (b64Answer "plaintext" [1])]

/-- The dispatch of a cipher request with the bearer that the context holds. -/
def cipherDispatch (path : String) (a : Api.CipherArgs) (resp : Response) : Option Bytes × Request × Answer :=
  (some (useScope sampleKid), buildRequest .standard .post (lit "/api/" ++ lit path) (some (printValue (.obj a.members)))
    (some (lit "Bearer t")) .default false, .done resp)

theorem sampleArgs_strings : sampleArgs.CStrings := ⟨by decide +kernel, by decide +kernel, fun t ht => by cases ht⟩

/-- The only request is one to a cipher, and its answer holds what the device makes of it. -/
theorem Serves.of_dispatch {V : Type} {path : String} {a : Api.CipherArgs} {said : V → Json → Prop}
    {f : CipherJob → Option V} {es : List Event} {key : String} {b : Bytes} {v : V} (hc : a.CStrings)
    (hes : es.filterMap Event.sent = [cipherDispatch path a (b64Answer key b)]) (hv : f a.job = some v)
    (hk : ∀ c ∈ lit key, c ≠ 0) (hz : ∀ c ∈ printValue (b64Object key b), c ≠ 0) (hs : said v (b64Object key b)) :
    Serves path CipherJob.AskedBy said f es := by
  apply Serves.of_sent hes
  intro _ body root j hbody hroot hj
  obtain rfl := Option.some.inj hbody
  have hparsed := jsonParse_printValue a.members_ne hc.strings
  obtain rfl := Option.some.inj (hparsed.symm.trans hroot)
  obtain rfl := hj.unique a.asked
  exact ⟨v, _, _, hv, rfl, b64Answer_read hk hz, hs⟩

theorem encryptEvents_served : prefixCipher.Serves encryptEvents := by
  have hsent : encryptEvents.filterMap Event.sent =
      [cipherDispatch "crypto/cipher/encrypt" sampleArgs (b64Answer "ciphertext" [42, 1])] := by decide +kernel
  constructor
  · have hmade : prefixCipher.encrypt sampleArgs.job = some ⟨[42, 1], none, none⟩ := rfl
    apply Serves.of_dispatch sampleArgs_strings hsent hmade (by decide +kernel) (by decide +kernel)
    exact ⟨carries_b64 (by simp [under]), by rfl, by rfl⟩
  · apply Serves.of_sent hsent
    intro hpath
    exact absurd hpath (by decide +kernel)

theorem decryptEvents_served : prefixCipher.Serves decryptEvents := by
  have hsent : decryptEvents.filterMap Event.sent =
      [cipherDispatch "crypto/cipher/decrypt" sampleUndo (b64Answer "plaintext" [1])] := by decide +kernel
  have hstrings : sampleUndo.CStrings := ⟨sampleArgs_strings.kid, sampleArgs_strings.alg, sampleArgs_strings.extKid⟩
  constructor
  · apply Serves.of_sent hsent
    intro hpath
    exact absurd hpath (by decide +kernel)
  · have hmade : prefixCipher.decrypt sampleUndo.job = some [1] := rfl
    apply Serves.of_dispatch hstrings hsent hmade (by decide +kernel) (by decide +kernel)
    exact carries_b64 (by simp [under])

/-- The sample message comes back. -/
theorem sample_message_back :
    ∃ m, scriptResult sampleDecrypt verifierCtx 5 [.done (b64Answer "plaintext" [1])] = .ok m ∧ m = [1] := by
  have henc : scriptResult sampleEncrypt verifierCtx 5 [.done (b64Answer "ciphertext" [42, 1])] =
      .ok ⟨[42, 1], none, none⟩ := by decide +kernel
  have hdec : scriptResult sampleDecrypt verifierCtx 5 [.done (b64Answer "plaintext" [1])] = .ok [1] := by decide +kernel
  have hrun := script_runs sampleEncrypt verifierCtx 5 [.done (b64Answer "ciphertext" [42, 1])]
  rw [henc] at hrun
  have htrip := (ciphers_round_trip .standard prefixCipher prefixWrap).1 sampleKid (lit "AES128-ECB") [1] (.null 0) .none
    (.null 0) ⟨[42, 1], none, none⟩ _ _ _ _ _ _ _ sampleArgs_strings hrun encryptEvents_served
    (script_runs sampleDecrypt verifierCtx 5 [.done (b64Answer "plaintext" [1])]) decryptEvents_served
  exact ⟨[1], hdec, htrip.1 _ hdec⟩

end EncedoHem
