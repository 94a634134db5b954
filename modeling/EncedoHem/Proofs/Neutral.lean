import EncedoHem.Proofs.Steps
import EncedoHem.DeviceInit

namespace EncedoHem
open Text Dialogue

/-- A contract that neither the quiet operations nor the error detail matter to. -/
structure Neutral (K : Contract Op Ans Ctx) : Prop where
  quiet : ∀ s (e : Event), e.op.quiet = true → K.rel s [e] s
  error : ∀ s (d : ErrorDetail), K.rel s [] (s.setError d)

/-- A neutral contract that the clocks do not matter to either. -/
structure Timed (K : Contract Op Ans Ctx) : Prop extends Neutral K where
  clock : ∀ s (e : Event), e.op.clock = true → K.rel s [e] s

theorem emits_neutral {P : Event → Prop} (h : ∀ e : Event, e.op.quiet = true → P e) :
    Neutral (Emits P) where
  quiet _ e he := emits_single (h e he)
  error _ _ := emits_nil

/-- What is said of dispatches and marks only is kept by everything else. -/
theorem emits_timed {P : Event → Prop} (h : ∀ e : Event, (e.op.quiet || e.op.clock) = true → P e) :
    Timed (Emits P) where
  toNeutral := emits_neutral fun e he => h e (by simp [he])
  clock _ e he := emits_single (h e (by simp [he]))

namespace Neutral
variable {K : Contract Op Ans Ctx} (h : Neutral K) {α : Type} {cfg : Config}
include h

theorem ask {i : Op} (hi : i.quiet = true) : Keeps K (ask i) :=
  Keeps.ask fun s o => h.quiet s ⟨i, o⟩ hi

theorem alloc : Keeps K alloc := h.ask rfl

theorem setError (d : Ctx → ErrorDetail) : Keeps K (modifyCtx fun s => s.setError (d s)) :=
  Keeps.modify fun s => h.error s (d s)

theorem clearError : Keeps K clearError := h.setError _

theorem record (status : Int) (payload : Option Bytes) (fmt : List Piece) :
    Keeps K (record status payload fmt) := by
  refine .bind (h.setError _) fun _ => ?_
  cases payload with
  | none => exact .pure _
  | some p => exact .bind h.alloc fun ok => .ite (fun _ => h.setError _) fun _ => .pure _

theorem ctxFail (rc : Rc) (status : Int) (payload : Option Bytes) (fmt : List Piece) :
    Keeps K (ctxFail rc status payload fmt : Cmd α) :=
  .bind (h.record ..) fun _ => .throw _

theorem outOfMemory : Keeps K (outOfMemory : Cmd α) := h.ctxFail ..

theorem need : Keeps K need :=
  .bind h.alloc fun _ => .ite (fun _ => .pure _) fun _ => h.outOfMemory

theorem needQuiet : Keeps K needQuiet :=
  .bind h.alloc fun _ => .ite (fun _ => .pure _) fun _ => .throw _

omit h in
theorem liftRc (r : Except Rc α) : Keeps K (liftRc r) := by
  cases r with
  | ok a => exact .pure a
  | error rc => exact .throw rc

theorem parseJson (b : Bytes) : Keeps K (parseJson b) := .bind h.alloc fun _ => .pure _

theorem printObject (ms : List (Bytes × Json)) : Keeps K (printObject ms) :=
  .bind h.need fun _ => .pure _

theorem sleepMs (ms : Int) : Keeps K (sleepMs ms) := .ite (fun _ => .pure _) fun _ => h.ask rfl

theorem peekClaim (jwt key : Bytes) : Keeps K (peekClaim jwt key) := by
  unfold EncedoHem.peekClaim
  split
  · exact .pure _
  · refine .ite (fun _ => .pure _) fun _ => ?_
    split
    · exact .pure _
    · exact .bind (h.parseJson _) fun _ => .pure _

theorem sendFailed (path : Bytes) (why : SendFailure) (expired : Bool) (detail : Bytes) :
    Keeps K (sendFailed path why expired detail : Cmd α) :=
  .bind (h.record ..) fun _ => .bind (h.setError _) fun _ => .throw _

theorem requireDone (path : Bytes) (a : Answer) : Keeps K (requireDone path a) := by
  cases a with
  | done r => exact .pure r
  | failed why expired detail => exact h.sendFailed ..

theorem judge (path : Bytes) (r : Response) : Keeps K (judge path r) := by
  refine .ite (fun _ => h.ctxFail ..) fun _ => ?_
  split
  · exact h.ctxFail ..
  · exact h.ctxFail ..
  · exact .pure _

theorem parseBody (path body : Bytes) : Keeps K (parseBody path body) := by
  refine .bind (h.parseJson _) fun root => ?_
  split
  · exact h.ctxFail ..
  · exact .ite (fun _ => .pure _) fun _ => h.ctxFail ..

theorem doSend {scope : Option Bytes} {method : Method} {path : Bytes}
    {jsonBody bearer : Option Bytes} {ov : TlsOverride} {fresh : Bool}
    (hs : ∀ s a, K.rel s
      [⟨.send scope (buildRequest cfg method path jsonBody bearer ov fresh), a⟩] s) :
    Keeps K (doSend cfg scope method path jsonBody bearer ov fresh) :=
  .bind (h.sleepMs _) fun _ => Keeps.ask hs

theorem recoverCert {checkin : Cmd Unit} {resend : Cmd Answer} {path : Bytes} {ov : TlsOverride}
    {a : Answer} (hcert : ∀ s : Ctx, K.rel s [] { s with certRefreshed := true })
    (hc : ov = .default → Keeps K checkin) (hr : Keeps K resend) :
    Keeps K (recoverCert cfg checkin resend path ov a) := by
  refine .bind .get fun s => ?_
  split
  · refine .ite (fun _ => .pure _) fun hg => ?_
    simp only [not_or, ne_eq, not_not] at hg
    refine .bind (.attempt (hc hg.2.2)) fun crc => ?_
    split
    · exact .bind (h.record ..) fun _ => .bind (h.setError _) fun _ => .throw _
    · refine .bind hr fun a' => ?_
      split
      · exact .bind (.modify hcert) fun _ => .pure _
      · exact .bind (h.record ..) fun _ => .bind (h.setError _) fun _ => .throw _
      · exact .pure _
  · exact .pure _

theorem retryAuth {ensure : Bytes → Cmd Bytes} {resend : Option Bytes → Cmd Answer} {path : Bytes}
    {scope : Option Bytes} {r : Response} (hi : ∀ sc, scope = some sc → Keeps K (authInvalidate sc))
    (he : ∀ sc, scope = some sc → Keeps K (ensure sc))
    (hr : ∀ b, scope ≠ none → Keeps K (resend (some b))) :
    Keeps K (EncedoHem.retryAuth ensure resend path scope r) := by
  unfold EncedoHem.retryAuth
  split
  · exact .pure _
  · refine .ite (fun _ => .pure _) fun _ => .bind (hi _ rfl) fun _ => .bind (he _ rfl) fun token => ?_
    refine .bind (.bind h.need fun _ => .pure _) fun bearer => .bind (hr _ (by simp)) fun a => ?_
    split
    · exact .pure _
    · exact h.ctxFail ..

/-- A request keeps what its dispatches keep, what the check-in that may recover it
keeps, and under a scope what the token engine keeps; without one it has no bearer. -/
theorem requestRawWith {ensure : Bytes → Cmd Bytes} {checkin : Cmd Unit} {method : Method}
    {path : Bytes} {jsonBody scope : Option Bytes} {ov : TlsOverride}
    (hcert : ∀ s : Ctx, K.rel s [] { s with certRefreshed := true })
    (hc : ov = .default → Keeps K checkin)
    (hi : ∀ sc, scope = some sc → Keeps K (authInvalidate sc))
    (he : ∀ sc, scope = some sc → Keeps K (ensure sc))
    (hs : ∀ s bearer fresh a, (scope = none → bearer = none) → K.rel s
      [⟨.send scope (buildRequest cfg method path jsonBody bearer ov fresh), a⟩] s) :
    Keeps K (requestRawWith cfg ensure checkin method path jsonBody scope ov) := by
  have hx : ∀ bearer, (scope = none → bearer = none) →
      Keeps K (exchangeWith cfg ensure checkin method path jsonBody scope ov bearer) := by
    intro bearer hb
    refine .bind (h.doSend fun s a => hs s _ _ a hb) fun a => ?_
    refine .bind (h.recoverCert hcert hc (h.doSend fun s a => hs s _ _ a hb)) fun a => ?_
    refine .bind (h.requireDone ..) fun r => .bind (h.retryAuth hi he fun b hn => ?_) fun r => h.judge ..
    exact h.doSend fun s a => hs s _ _ a fun h0 => absurd h0 hn
  refine .ite (fun _ => h.ctxFail ..) fun _ => ?_
  cases scope with
  | none => exact hx none fun _ => rfl
  | some sc =>
    refine .bind (.bind (he sc rfl) fun token => ?_) fun bearer => hx bearer (by simp)
    exact .bind (.bind h.need fun _ => .pure _) fun _ => .pure _

/-- A request without a scope calls no token engine. -/
theorem requestRawWith_plain {ensure : Bytes → Cmd Bytes} {checkin : Cmd Unit} {method : Method}
    {path : Bytes} {jsonBody : Option Bytes} {ov : TlsOverride}
    (hcert : ∀ s : Ctx, K.rel s [] { s with certRefreshed := true })
    (hc : ov = .default → Keeps K checkin)
    (hs : ∀ s fresh a, K.rel s
      [⟨.send none (buildRequest cfg method path jsonBody none ov fresh), a⟩] s) :
    Keeps K (EncedoHem.requestRawWith cfg ensure checkin method path jsonBody none ov) :=
  h.requestRawWith hcert hc (fun _ hn => nomatch hn) (fun _ hn => nomatch hn)
    fun s bearer fresh a hb => by rw [hb rfl]; exact hs s fresh a

theorem leg {method : Method} {path : Bytes} {jsonBody : Option Bytes} {ov : TlsOverride}
    (hcert : ∀ s : Ctx, K.rel s [] { s with certRefreshed := true })
    (hs : ∀ s fresh a, K.rel s
      [⟨.send none (buildRequest cfg method path jsonBody none ov fresh), a⟩] s) :
    Keeps K (leg cfg method path jsonBody ov) :=
  h.requestRawWith_plain hcert (fun _ => .throw _) hs

/-- The three legs of a check-in, as far as the contract is about what they send. -/
theorem checkinLegs {relax : Bool} (hcert : ∀ s : Ctx, K.rel s [] { s with certRefreshed := true })
    (hget : ∀ s fresh a, K.rel s
      [⟨.send none (buildRequest cfg .get checkinPath none none (deviceOverride relax) fresh), a⟩] s)
    (hcloud : ∀ s body fresh a, K.rel s
      [⟨.send none (buildRequest cfg .post cfg.checkinUrl body none .verify fresh), a⟩] s)
    (hpost : ∀ s body fresh a, K.rel s
      [⟨.send none (buildRequest cfg .post checkinPath body none (deviceOverride relax) fresh), a⟩] s) :
    Keeps K (checkinLegs cfg relax) := by
  refine .bind (h.leg hcert hget) fun challenge => ?_
  refine .bind (h.leg hcert fun s => hcloud s _) fun verified => ?_
  refine .bind (h.leg hcert fun s => hpost s _) fun body => ?_
  exact .bind (h.parseBody ..) fun root => .pure _

omit h in
/-- The guard around a check-in, for a contract that its marks and its flag do not matter to. -/
theorem guardCheckin {why : CheckinReason} {x : Cmd α} (hm : ∀ m, Keeps K (mark m))
    (hg : ∀ (s : Ctx) b, K.rel s [] (s.setInCheckin b)) (hx : Keeps K x) :
    Keeps K (guardCheckin why x) := by
  refine .bind (hm _) fun _ => .bind (.modify fun s => hg s true) fun _ => ?_
  refine .bind (.attempt hx) fun r => .bind (.modify fun s => hg s false) fun _ => ?_
  refine .bind (hm _) fun _ => ?_
  split
  · exact .pure _
  · exact .throw _

/-- A post of the ext-login pair keeps what its request and the check-in keep. -/
theorem extLoginPost {path body : Bytes} (hr : Keeps K (requestPlainJson cfg .post path (some body)))
    (hc : Keeps K (recoveryCheckin cfg)) : Keeps K (extLoginPost cfg path body) := by
  refine .bind (.attempt hr) fun r => .bind .get fun s => ?_
  split
  · exact .pure _
  · refine .ite (fun _ => .bind (.attempt hc) fun crc => ?_) fun _ => .throw _
    split
    · exact .bind .get fun s => h.ctxFail ..
    · exact hr

/-- A broker exchange keeps what its dispatch keeps, which is always verified in full. -/
theorem notifySend {method : Method} {url : Option Bytes} {subpath : Bytes} {body : Option Bytes}
    (hs : ∀ s path a, K.rel s [⟨.send none (buildRequest cfg method path body none .verify false), a⟩] s) :
    Keeps K (notifySend cfg method url subpath body) := by
  refine .ite (fun _ => h.ctxFail ..) fun _ => .ite (fun _ => h.ctxFail ..) fun _ => ?_
  refine .bind h.need fun _ => .bind (.ask fun s a => hs s _ a) fun a => ?_
  split
  · exact h.ctxFail ..
  · exact .ite (fun _ => h.ctxFail ..) fun _ => .pure _

theorem brokerStr (root : Json) (what key : Bytes) : Keeps K (brokerStr root what key) := by
  unfold EncedoHem.brokerStr
  split
  · exact h.ctxFail ..
  · exact .bind h.need fun _ => .pure _

theorem reqStr (root : Json) (what key : Bytes) : Keeps K (reqStr root what key) := by
  unfold EncedoHem.reqStr
  split
  · exact h.ctxFail ..
  · exact .bind h.need fun _ => .pure _

theorem optStr (root : Json) (key : Bytes) : Keeps K (optStr root key) := by
  unfold EncedoHem.optStr
  split
  · exact .pure _
  · exact .bind h.need fun _ => .pure _

theorem extToken {authreply : Bytes} (hp : ∀ body, Keeps K (EncedoHem.extLoginPost cfg extTokenPath body)) :
    Keeps K (extToken cfg authreply) := by
  refine .bind h.clearError fun _ => .ite (fun _ => h.ctxFail ..) fun _ => ?_
  refine .bind (h.printObject _) fun _ => .bind (.attempt (hp _)) fun r => .bind .get fun s => ?_
  split
  · refine .ite (fun _ => h.ctxFail ..) fun _ => ?_
    exact .ite (fun _ => h.ctxFail ..) fun _ => .throw _
  · split
    · exact h.ctxFail ..
    · exact .bind h.need fun _ => .pure _

theorem harvestJwtClaim (envelope envKey claim : Bytes) :
    Keeps K (harvestJwtClaim envelope envKey claim) := by
  refine .bind (h.parseJson _) fun env => ?_
  split
  · exact .pure _
  · refine .ite (fun _ => .pure _) fun _ => .bind h.need fun _ => ?_
    split
    · exact .pure _
    · refine .bind (h.parseJson _) fun payload => ?_
      split
      · exact .pure _
      · exact .bind h.need fun _ => .pure _

theorem harvest (challenge verified : Bytes) (root : Json) :
    Keeps K (harvest challenge verified root) := by
  refine .bind ?_ fun info => .bind (h.harvestJwtClaim ..) fun chain => .bind ?_ fun serial => .pure _
  · refine .bind h.need fun _ => .bind (h.optStr ..) fun _ => .bind (h.optStr ..) fun _ => ?_
    exact .bind (h.optStr ..) fun _ => .bind (h.optStr ..) fun _ => .pure _
  · refine .bind (h.harvestJwtClaim ..) fun csn => ?_
    split
    · exact .pure _
    · exact .pure _
    · exact .bind h.need fun _ => .pure _

theorem signCompact (header payload key : Bytes) : Keeps K (signCompact header payload key) := by
  refine .bind h.needQuiet fun _ => ?_
  split
  · refine .bind h.needQuiet fun _ => .bind (h.ask rfl) fun mac => .bind (liftRc _) fun mac => ?_
    split
    · exact .pure _
    · exact .throw _
  · exact .throw _

theorem ejwtBuild (jti spk scope userPub shared : Bytes) (now exp : Int) :
    Keeps K (ejwtBuild jti spk scope userPub shared now exp) := by
  unfold EncedoHem.ejwtBuild
  split
  · exact .throw _
  · exact .bind h.needQuiet fun _ => h.signCompact ..

theorem deriveEjwt (scope eid spk jti peer : Bytes) (now : Int) :
    Keeps K (deriveEjwt cfg scope eid spk jti peer now) := by
  refine .bind .get fun s => .bind (h.ask rfl) fun seed => .bind (liftRc _) fun seed => ?_
  refine .bind (h.ask rfl) fun pair => .bind (liftRc _) fun pair => ?_
  exact .bind (h.ask rfl) fun shared => .bind (liftRc _) fun shared => h.ejwtBuild ..

theorem newConfirm (notifyUrl : Option Bytes) (scope : Bytes) :
    Keeps K (newConfirm notifyUrl scope) := by
  refine .bind h.need fun _ => .bind h.need fun _ => ?_
  split
  · exact .pure _
  · exact .bind h.need fun _ => .pure _

theorem breadcrumb (failed : Bool) : Keeps K (breadcrumb failed) :=
  .ite (fun _ => h.setError _) fun _ => .pure _

theorem initExplain (rc : Rc) (leg : String) : Keeps K (initExplain rc leg : Cmd α) := by
  refine .bind .get fun s => ?_
  dsimp only
  split
  · exact .throw _
  · exact h.ctxFail ..

theorem initKeys (q : InitStrings) (eid peer : Bytes) : Keeps K (initKeys cfg q eid peer) := by
  have hb : ∀ key, Keeps K (keyB64 key) := by
    intro key
    unfold keyB64
    split
    · exact .throw _
    · exact .pure _
  refine .bind (h.ask rfl) fun seed => .bind (liftRc _) fun seed => ?_
  refine .bind (h.ask rfl) fun user => .bind (liftRc _) fun user => ?_
  refine .bind (h.ask rfl) fun master => .bind (liftRc _) fun master => ?_
  refine .bind (h.ask rfl) fun shared => .bind (liftRc _) fun shared => ?_
  exact .bind (hb _) fun _ => .bind (hb _) fun _ => .pure _

theorem initOut (out : Bool) (instanceid : Bytes) (root : Json) :
    Keeps K (initOut out instanceid root) := by
  have hs : ∀ key, Keeps K (softStr root key) := by
    intro key
    unfold softStr
    split
    · exact .pure _
    · exact .bind h.alloc fun _ => .pure _
  refine .ite (fun _ => .bind ?_ fun _ => .pure _) fun _ => .pure _
  refine .bind h.need fun _ => .bind h.alloc fun _ => .bind (hs _) fun _ => .bind (hs _) fun _ => ?_
  exact .ite (fun _ => .pure _) fun _ => h.outOfMemory

end Neutral

namespace Timed
variable {K : Contract Op Ans Ctx} (h : Timed K) {cfg : Config}
include h

theorem askClock {i : Op} (hi : i.clock = true) : Keeps K (ask i) :=
  Keeps.ask fun s o => h.clock s ⟨i, o⟩ hi

theorem authreqDrift (authreq : Bytes) : Keeps K (authreqDrift authreq) := by
  refine .bind (h.peekClaim ..) fun iat => ?_
  split
  · exact .pure _
  · exact .bind (h.askClock rfl) fun _ => .pure _

theorem expiryOr (exp : Option Int) : Keeps K (expiryOr exp) := by
  cases exp with
  | some e => exact .pure e
  | none => exact .bind (h.askClock rfl) fun _ => .pure _

theorem initJwt (p : InitParams) (q : InitStrings) (eid spk jti peer : Bytes) (exp : Int) :
    Keeps K (initJwt cfg p q eid spk jti peer exp) := by
  refine .bind (.attempt (h.initKeys ..)) fun keys => .bind (h.askClock rfl) fun now => ?_
  exact .bind (Neutral.liftRc _) fun _ => .bind h.needQuiet fun _ => h.signCompact ..

/-- An initialisation keeps what its two requests and the opening of the session keep. -/
theorem deviceInit {p : InitParams} {out : Bool} {P : Bytes → Prop} (hp : P authInitPath)
    (hr : ∀ method path body, P path → Keeps K (requestPlainJson cfg method path body))
    (hs : ∀ q token, Keeps K (initSession cfg q token)) : Keeps K (deviceInit cfg p out) := by
  refine .bind h.clearError fun _ => ?_
  split
  · exact h.ctxFail ..
  · refine .ite (fun _ => h.ctxFail ..) fun _ => .bind (h.ask rfl) fun init => ?_
    split
    · exact h.ctxFail ..
    · refine .bind (.attempt (hr _ _ _ hp)) fun challenge => ?_
      split
      · exact h.initExplain ..
      · unfold initAnswer
        split
        · exact h.ctxFail ..
        · split
          · exact h.ctxFail ..
          · refine .bind (.attempt (h.initJwt ..)) fun jwt => ?_
            split
            · exact h.ctxFail ..
            · refine .bind h.need fun _ => .bind (.attempt (hr _ _ _ hp)) fun result => ?_
              split
              · exact h.initExplain ..
              · split
                · exact .bind (hs ..) fun _ => h.initOut ..
                · exact h.ctxFail ..

end Timed

/-- What a contract has to allow for pushes: a broker exchange, and an ext-login post with its
recovery. -/
structure Pushing (cfg : Config) (K : Contract Op Ans Ctx) : Prop extends Neutral K where
  broker : ∀ method url subpath body, Keeps K (notifySend cfg method url subpath body)
  extPost : ∀ path body, path = extRequestPath ∨ path = extTokenPath →
    Keeps K (extLoginPost cfg path body)

/-- What a contract has to allow for the parts of the machinery that it looks at
as wholes: a broker exchange, an unauthenticated request to the device, and an
ext-login post with its recovery. -/
structure Machinery (cfg : Config) (K : Contract Op Ans Ctx) : Prop extends Neutral K where
  broker : ∀ method url subpath body, Keeps K (notifySend cfg method url subpath body)
  plain : ∀ method path body, lit "/api/" <+: path →
    Keeps K (requestPlain cfg method path body .default)
  extPost : ∀ path body, path = extRequestPath ∨ path = extTokenPath →
    Keeps K (extLoginPost cfg path body)

namespace Machinery
variable {cfg : Config} {K : Contract Op Ans Ctx} (h : Machinery cfg K)
include h

theorem pushing : Pushing cfg K := { h with }

theorem plainJson {method : Method} {path : Bytes} {body : Option Bytes} (hp : lit "/api/" <+: path) :
    Keeps K (requestPlainJson cfg method path body) :=
  .bind (h.plain _ _ _ hp) fun _ => h.parseBody ..

end Machinery

namespace Pushing
variable {cfg : Config} {K : Contract Op Ans Ctx} (h : Pushing cfg K)
include h

theorem notifySendJson (method : Method) (url : Option Bytes) (subpath : Bytes)
    (body : Option Bytes) : Keeps K (notifySendJson cfg method url subpath body) := by
  refine .bind (h.broker ..) fun ⟨status, body⟩ => ?_
  dsimp only
  split
  · exact h.ctxFail ..
  · refine .bind (h.parseJson _) fun root => ?_
    split
    · exact h.ctxFail ..
    · exact .pure _

theorem notifySession (url eid : Option Bytes) : Keeps K (notifySession cfg url eid) := by
  refine .bind h.clearError fun _ => .bind ?_ fun body =>
    .bind (h.notifySendJson ..) fun root => h.brokerStr ..
  cases eid with
  | none => exact .pure _
  | some eid => exact .bind (h.printObject _) fun _ => .pure _

theorem notifyEventNew (url : Option Bytes) (authreq epk : Bytes) :
    Keeps K (notifyEventNew cfg url authreq epk) :=
  .bind h.clearError fun _ => .bind (h.printObject _) fun _ =>
    .bind (h.notifySendJson ..) fun _ => h.brokerStr ..

theorem notifyRegisterInit (url : Option Bytes) (epk eid request : Bytes) :
    Keeps K (notifyRegisterInit cfg url epk eid request) :=
  .bind h.clearError fun _ => .bind (h.printObject _) fun _ =>
    .bind (h.notifySendJson ..) fun _ => .bind h.need fun _ =>
      .bind (h.brokerStr ..) fun _ => .bind (h.brokerStr ..) fun _ => .pure _

theorem notifyPoll (what stem id : Bytes) (url : Option Bytes) (tooLong : Piece) :
    Keeps K (notifyPoll cfg what stem id url tooLong) := by
  unfold EncedoHem.notifyPoll
  split
  · exact h.ctxFail ..
  · refine .bind (h.broker ..) fun ⟨status, body⟩ => .bind h.need fun _ => ?_
    refine .ite (fun _ => .pure _) fun _ => .bind ?_ fun root => ?_
    · cases body with
      | none => exact .pure _
      | some b => exact h.parseJson b
    · split
      · exact h.ctxFail ..
      · exact .pure _

theorem notifyRegisterCheck (url : Option Bytes) (rid : Bytes) :
    Keeps K (notifyRegisterCheck cfg url rid) := by
  refine .bind h.clearError fun _ => .bind (h.notifyPoll ..) fun polled => ?_
  split
  · exact .pure _
  · exact .bind (h.brokerStr ..) fun _ => .bind (h.brokerStr ..) fun _ => .pure _

theorem notifyRegisterFinalise (url : Option Bytes) (rid kid code : Bytes) :
    Keeps K (notifyRegisterFinalise cfg url rid kid code) := by
  refine .bind h.clearError fun _ => ?_
  split
  · exact h.ctxFail ..
  · exact .bind (h.printObject _) fun _ => .bind (h.broker ..) fun _ => .pure _

theorem notifyEventCheck (url : Option Bytes) (eventid : Bytes) :
    Keeps K (notifyEventCheck cfg url eventid) := by
  refine .bind h.clearError fun _ => .bind (h.notifyPoll ..) fun polled => ?_
  split
  · exact .pure _
  · refine .ite (fun _ => .pure _) fun _ => ?_
    split
    · exact h.ctxFail ..
    · exact .bind h.need fun _ => .pure _

theorem extRequest (epk scope : Bytes) (ctxStr note : Option Bytes) :
    Keeps K (extRequest cfg epk scope ctxStr note) := by
  refine .bind h.clearError fun _ => .ite (fun _ => h.ctxFail ..) fun _ => ?_
  refine .ite (fun _ => h.ctxFail ..) fun _ => .ite (fun _ => h.ctxFail ..) fun _ => ?_
  refine .ite (fun _ => h.ctxFail ..) fun _ => .bind (h.printObject _) fun _ => ?_
  refine .bind (h.extPost _ _ (.inl rfl)) fun root => .bind h.need fun _ => ?_
  exact .bind (h.reqStr ..) fun _ => .bind (h.reqStr ..) fun _ => .pure _

theorem extToken (authreply : Bytes) : Keeps K (extToken cfg authreply) :=
  h.toNeutral.extToken fun _ => h.extPost _ _ (.inr rfl)

theorem confirmFirePush (url : Option Bytes) (scope : Bytes) (ctxStr note : Option Bytes) :
    Keeps K (confirmFirePush cfg url scope ctxStr note) := by
  refine .bind (.attempt (h.notifySession ..)) fun session => ?_
  split
  · exact .pure _
  · refine .bind (.attempt (h.extRequest ..)) fun req => ?_
    split
    · exact .pure _
    · exact .bind (.attempt (h.notifyEventNew ..)) fun _ => .pure _

/-- A push begins a handle, once its one recovery is accounted for. -/
theorem confirmBegin {url : Option Bytes} {scope : Bytes} {ctxStr note : Option Bytes}
    (hr : ∀ push, Keeps K (recoverPush cfg url scope ctxStr note push)) :
    Keeps K (confirmBegin cfg url scope ctxStr note) := by
  refine .bind (h.newConfirm ..) fun c => .bind (h.confirmFirePush ..) fun push => ?_
  refine .bind (hr push) fun outcome => ?_
  split
  · exact .throw _
  · exact .bind (.ite (fun _ => h.ask rfl) fun _ => .pure _) fun _ => .pure _

theorem confirmCheck (c : Confirm) : Keeps K (confirmCheck cfg c) := by
  unfold EncedoHem.confirmCheck
  split
  · exact .throw _
  · exact h.notifyEventCheck ..

/-- A poll keeps what redeeming for the handle's scope keeps. -/
theorem confirmPoll {c : Confirm} (hr : ∀ authreply, Keeps K (confirmRedeem cfg c.scope authreply)) :
    Keeps K (confirmPoll cfg c) := by
  refine .ite (fun _ => .bind (.attempt (h.ctxFail ..)) fun _ => .pure _) fun _ => ?_
  refine .bind (.attempt (h.confirmCheck _)) fun polled => ?_
  split
  · exact .pure _
  · exact .pure _
  · exact .bind (.attempt (h.ctxFail ..)) fun _ => .pure _
  · exact .bind (.attempt (hr _)) fun _ => .pure _

omit h in
/-- No poll changes what its handle is for. -/
theorem yields_confirmPoll (c : Confirm) : Yields (EncedoHem.confirmPoll cfg c) fun p =>
    p.2.scope = c.scope ∧ p.2.notifyUrl = c.notifyUrl ∧ p.2.eventid = c.eventid := by
  refine .ite (fun _ => .bind fun _ => .pure ⟨rfl, rfl, rfl⟩) fun _ => .bind fun polled => ?_
  split
  · exact .pure ⟨rfl, rfl, rfl⟩
  · exact .pure ⟨rfl, rfl, rfl⟩
  · exact .bind fun _ => .pure ⟨rfl, rfl, rfl⟩
  · exact .bind fun _ => .pure ⟨rfl, rfl, rfl⟩

/-- A wait keeps what every poll of its handle keeps: induction on the rounds left. -/
theorem confirmWaitLoop {timeoutMs : Int} {scope : Bytes}
    (hp : ∀ c : Confirm, c.scope = scope → Keeps K (EncedoHem.confirmPoll cfg c)) :
    ∀ rounds elapsed (c : Confirm), c.scope = scope →
      Keeps K (confirmWaitLoop cfg timeoutMs rounds elapsed c) := by
  intro rounds
  induction rounds with
  | zero => intro elapsed c _; exact .pure _
  | succ rounds ih =>
    intro elapsed c hc
    refine .bind_yields (hp c hc) (yields_confirmPoll c) fun ⟨r, c'⟩ hc' => ?_
    dsimp only
    split
    · exact .pure _
    · exact .pure _
    · refine .ite (fun _ => .bind (.attempt (h.ctxFail ..)) fun _ => .pure _) fun _ => ?_
      exact .bind (h.sleepMs _) fun _ => ih _ _ (hc'.1.trans hc)

theorem confirmWait {timeoutMs : Int} {c : Confirm}
    (hp : ∀ c' : Confirm, c'.scope = c.scope → Keeps K (EncedoHem.confirmPoll cfg c')) :
    Keeps K (confirmWait cfg c timeoutMs) :=
  .ite (fun _ => .pure _) fun _ => h.confirmWaitLoop hp _ _ c rfl

end Pushing

end EncedoHem
