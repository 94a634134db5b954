import EncedoHem.Auth

namespace EncedoHem
open Text Dialogue

/-- The readings of a clock. -/
def Op.clock : Op → Bool
  | .authNow => true
  | .wallTime => true
  | _ => false

/-- Operations that neither reach the network, nor leave a mark, nor read a clock. -/
def Op.quiet : Op → Bool
  | .send _ _ => false
  | .mark _ => false
  | op => !op.clock

/-- The events of a pause before a dispatch. -/
def pause (cfg : Config) : List Event :=
  if cfg.requestPaceMs ≤ 0 then [] else [⟨.sleep cfg.requestPaceMs, ()⟩]

/-- The state after `ehem_ctx_fail` wrote the detail; `copied` tells whether there
was memory for the payload. -/
def Ctx.recorded (s : Ctx) (status : Int) (payload : Option Bytes) (fmt : List Piece)
    (copied : Bool) : Ctx :=
  s.setError ⟨status, if copied then payload else none,
    vsnprintf s.lastError.message fmt [], false⟩

/-- The events of writing the detail: memory is asked for when there is a payload. -/
def recordEvents (payload : Option Bytes) (copied : Bool) : List Event :=
  match payload with
  | none => []
  | some _ => [⟨.alloc, copied⟩]

section
variable {α : Type} {cfg : Config} {s : Ctx}

@[simp] theorem wp_send {scope : Option Bytes} {req : Request}
    {Q : List Event → Except Rc Answer → Ctx → Prop} :
    wp (transportSend scope req) Q s ↔ ∀ a : Answer, Q [⟨.send scope req, a⟩] (.ok a) s :=
  wp_ask (i := Op.send scope req)

@[simp] theorem wp_authNow {Q : List Event → Except Rc Int → Ctx → Prop} :
    wp authNow Q s ↔ ∀ n : Int, Q [⟨.authNow, n⟩] (.ok n) s := wp_ask (i := Op.authNow)

@[simp] theorem wp_wallTime {Q : List Event → Except Rc Int → Ctx → Prop} :
    wp wallTime Q s ↔ ∀ n : Int, Q [⟨.wallTime, n⟩] (.ok n) s := wp_ask (i := Op.wallTime)

@[simp] theorem wp_sleep {ms : Int} {Q : List Event → Except Rc Unit → Ctx → Prop} :
    wp (sleep ms) Q s ↔ Q [⟨.sleep ms, ()⟩] (.ok ()) s :=
  (wp_ask (i := Op.sleep ms)).trans ⟨fun h => h (), fun h _ => h⟩

@[simp] theorem wp_notice {scope : Bytes} {ms : Int} {Q : List Event → Except Rc Unit → Ctx → Prop} :
    wp (notice scope ms) Q s ↔ Q [⟨.notice scope ms, ()⟩] (.ok ()) s :=
  (wp_ask (i := Op.notice scope ms)).trans ⟨fun h => h (), fun h _ => h⟩

@[simp] theorem wp_globalInit {Q : List Event → Except Rc (Except Rc Unit) → Ctx → Prop} :
    wp globalInit Q s ↔ ∀ r : Except Rc Unit, Q [⟨.globalInit, r⟩] (.ok r) s :=
  wp_ask (i := Op.globalInit)

@[simp] theorem wp_pbkdf2 {p salt : Bytes} {n : Nat}
    {Q : List Event → Except Rc (Except Rc Bytes) → Ctx → Prop} :
    wp (kdfPbkdf2Sha256 p salt n) Q s ↔ ∀ r : Except Rc Bytes, Q [⟨.pbkdf2 p salt n, r⟩] (.ok r) s :=
  wp_ask (i := Op.pbkdf2 p salt n)

@[simp] theorem wp_x25519Keypair {seed : Bytes}
    {Q : List Event → Except Rc (Except Rc (Bytes × Bytes)) → Ctx → Prop} :
    wp (x25519KeypairFromSeed seed) Q s ↔
      ∀ r : Except Rc (Bytes × Bytes), Q [⟨.x25519Keypair seed, r⟩] (.ok r) s :=
  wp_ask (i := Op.x25519Keypair seed)

@[simp] theorem wp_x25519Shared {priv peer : Bytes}
    {Q : List Event → Except Rc (Except Rc Bytes) → Ctx → Prop} :
    wp (x25519Shared priv peer) Q s ↔
      ∀ r : Except Rc Bytes, Q [⟨.x25519Shared priv peer, r⟩] (.ok r) s :=
  wp_ask (i := Op.x25519Shared priv peer)

@[simp] theorem wp_hmacSha256 {key msg : Bytes}
    {Q : List Event → Except Rc (Except Rc Bytes) → Ctx → Prop} :
    wp (hmacSha256 key msg) Q s ↔
      ∀ r : Except Rc Bytes, Q [⟨.hmacSha256 key msg, r⟩] (.ok r) s :=
  wp_ask (i := Op.hmacSha256 key msg)

@[simp] theorem wp_mark {m : Mark} {Q : List Event → Except Rc Unit → Ctx → Prop} :
    wp (mark m) Q s ↔ Q [⟨.mark m, ()⟩] (.ok ()) s :=
  (wp_ask (i := Op.mark m)).trans ⟨fun h => h (), fun h _ => h⟩

@[simp] theorem wp_alloc {Q : List Event → Except Rc Bool → Ctx → Prop} :
    wp alloc Q s ↔ ∀ ok : Bool, Q [⟨.alloc, ok⟩] (.ok ok) s := wp_ask (i := Op.alloc)

@[simp] theorem wp_throwRc {rc : Rc} {Q : List Event → Except Rc α → Ctx → Prop} :
    wp (throwRc rc) Q s ↔ Q [] (.error rc) s := wp_throw

@[simp] theorem wp_getCtx {Q : List Event → Except Rc Ctx → Ctx → Prop} :
    wp getCtx Q s ↔ Q [] (.ok s) s := wp_get

@[simp] theorem wp_modifyCtx {f : Ctx → Ctx} {Q : List Event → Except Rc Unit → Ctx → Prop} :
    wp (modifyCtx f) Q s ↔ Q [] (.ok ()) (f s) := wp_modify

@[simp] theorem wp_clearError {Q : List Event → Except Rc Unit → Ctx → Prop} :
    wp clearError Q s ↔ Q [] (.ok ()) (s.setError .clear) := wp_modifyCtx

@[simp] theorem wp_record {status : Int} {payload : Option Bytes} {fmt : List Piece}
    {Q : List Event → Except Rc Unit → Ctx → Prop} :
    wp (record status payload fmt) Q s ↔
      ∀ copied, Q (recordEvents payload copied) (.ok ()) (s.recorded status payload fmt copied) := by
  cases payload with
  | none => simp [record, recordEvents, Ctx.recorded]
  | some p =>
    simp only [record, wp_bind, wp_modifyCtx, wp_alloc, wp_ite, wp_pure, List.nil_append]
    constructor
    · intro h copied
      cases copied with
      | true => exact h true
      | false => exact h false
    · intro h copied
      cases copied with
      | true => exact h true
      | false => exact h false

@[simp] theorem wp_ctxFail {rc : Rc} {status : Int} {payload : Option Bytes} {fmt : List Piece}
    {Q : List Event → Except Rc α → Ctx → Prop} :
    wp (ctxFail rc status payload fmt) Q s ↔
      ∀ copied, Q (recordEvents payload copied) (.error rc) (s.recorded status payload fmt copied) := by
  simp [ctxFail]

@[simp] theorem wp_doSend {scope : Option Bytes} {method : Method} {path : Bytes}
    {jsonBody bearer : Option Bytes} {ov : TlsOverride} {fresh : Bool}
    {Q : List Event → Except Rc Answer → Ctx → Prop} :
    wp (doSend cfg scope method path jsonBody bearer ov fresh) Q s ↔
      ∀ a, Q (pause cfg ++ [⟨.send scope (buildRequest cfg method path jsonBody bearer ov fresh), a⟩])
        (.ok a) s := by
  by_cases h : cfg.requestPaceMs ≤ 0
  · simp [doSend, sleepMs, pause, h]
  · simp [doSend, sleepMs, pause, h]

/-- A body is read as the object that it is, or the failure is told. -/
theorem wp_parseBody {path b : Bytes} {Q : List Event → Except Rc Json → Ctx → Prop}
    (hgood : ∀ root, jsonParse b = some root → root.isObject = true → Q [⟨.alloc, true⟩] (.ok root) s)
    (hbad : ∀ (ok : Bool) (payload : Option Bytes) (fmt : List Piece),
      (ok = true → ∀ root, jsonParse b = some root → root.isObject = false) →
      wp (ctxFail .protocol 0 payload fmt : Cmd Json) (fun es => Q ([⟨.alloc, ok⟩] ++ es)) s) :
    wp (parseBody path b) Q s := by
  unfold parseBody parseJson
  rw [Cmd.bind_assoc, wp_bind, wp_alloc]
  intro ok
  dsimp only
  rw [Cmd.pure_bind]
  split
  · rename_i hn
    refine hbad ok _ _ fun hok root hroot => ?_
    rw [if_pos hok, hroot] at hn
    cases hn
  · rename_i root hs
    rw [wp_ite]
    split
    · rename_i ho
      cases ok with
      | false => cases hs
      | true => exact wp_pure.mpr (hgood root hs ho)
    · rename_i ho
      refine hbad ok _ _ fun hok root' hroot => ?_
      rw [if_pos hok, hroot] at hs
      rw [Option.some.inj hs]
      simpa using ho

/-- A failure ends a sequence. -/
theorem throwRc_bind {β : Type} (rc : Rc) (f : α → Cmd β) :
    (throwRc rc : Cmd α) >>= f = throwRc rc := Cmd.throw_bind rc f

theorem ctxFail_bind {β : Type} (rc : Rc) (status : Int) (payload : Option Bytes) (fmt : List Piece)
    (f : α → Cmd β) : (ctxFail rc status payload fmt : Cmd α) >>= f = ctxFail rc status payload fmt := by
  unfold ctxFail
  rw [Cmd.bind_assoc]
  rfl

theorem yields_ctxFail (rc : Rc) (status : Int) (payload : Option Bytes) (fmt : List Piece) (V : α → Prop) :
    Yields (ctxFail rc status payload fmt : Cmd α) V := .bind fun _ => .throw _ _

theorem sendFailed_bind {β : Type} (path : Bytes) (why : SendFailure) (expired : Bool)
    (detail : Bytes) (f : α → Cmd β) :
    (sendFailed path why expired detail : Cmd α) >>= f = sendFailed path why expired detail := by
  unfold sendFailed
  simp only [Cmd.bind_assoc]
  rfl

end

end EncedoHem
