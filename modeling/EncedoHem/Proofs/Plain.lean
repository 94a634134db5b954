import EncedoHem.Api
import EncedoHem.Proofs.Engine

namespace EncedoHem
open Text Dialogue

/-- What every dispatch of the machinery under a scoped request looks like: made
under no scope and without a bearer, relaxed only for the device legs of a
check-in, and verified in full unless it goes to the device's own interface. -/
structure PlainSend (scope : Option Bytes) (req : Request) : Prop where
  unscoped : scope = none
  noBearer : ∀ v, (lit "Authorization", v) ∉ req.headers
  relaxed : req.tlsOverride = .relax →
    req.path = checkinPath ∧ (req.method = .get ∨ req.method = .post)
  device : req.tlsOverride ≠ .verify → lit "/api/" <+: req.path

def PlainEvent : Event → Prop
  | ⟨.send scope req, _⟩ => PlainSend scope req
  | _ => True

/-- Every dispatch of every run is plain. -/
abbrev Plain {α : Type} (x : Cmd α) : Prop := Keeps (Emits PlainEvent) x

theorem noBearer_headers (jsonBody : Option Bytes) (v : Bytes) :
    (lit "Authorization", v) ∉ requestHeaders jsonBody none := by
  have ha : lit "Authorization" ≠ lit "Accept" := by decide
  have hc : lit "Authorization" ≠ lit "Content-Type" := by decide
  cases jsonBody <;> simp [requestHeaders, ha, hc]

namespace Plain
variable {α : Type} {cfg : Config}

theorem timed : Timed (Emits PlainEvent) := by
  apply emits_timed
  intro e he
  obtain ⟨op, ans⟩ := e
  cases op with
  | send scope req => exact absurd he Bool.false_ne_true
  | _ => exact trivial

theorem neutral : Neutral (Emits PlainEvent) := timed.toNeutral

theorem modifyCtx (f : Ctx → Ctx) : Plain (modifyCtx f) := .modify fun _ => emits_nil

theorem mark (m : Mark) : Plain (mark m) := .ask fun _ _ => emits_single trivial

theorem modifyAuth (f : Auth → Auth) : Plain (modifyAuth f) := modifyCtx _

theorem device_send {s : Ctx} {method : Method} {path : Bytes} {jsonBody : Option Bytes} {fresh : Bool}
    (a : Answer) (hp : lit "/api/" <+: path) : (Emits PlainEvent).rel s
      [⟨.send none (buildRequest cfg method path jsonBody none .default fresh), a⟩] s := by
  exact emits_single ⟨rfl, noBearer_headers jsonBody, (fun h => nomatch h), fun _ => hp⟩

theorem cloud_send {s : Ctx} {method : Method} {path : Bytes} {jsonBody : Option Bytes} {fresh : Bool}
    (a : Answer) : (Emits PlainEvent).rel s
      [⟨.send none (buildRequest cfg method path jsonBody none .verify fresh), a⟩] s := by
  exact emits_single ⟨rfl, noBearer_headers jsonBody, (fun h => nomatch h),
    fun h => absurd rfl h⟩

theorem checkin_send {s : Ctx} {method : Method} {jsonBody : Option Bytes} {ov : TlsOverride}
    {fresh : Bool} (a : Answer) (hm : method = .get ∨ method = .post) : (Emits PlainEvent).rel s
      [⟨.send none (buildRequest cfg method checkinPath jsonBody none ov fresh), a⟩] s := by
  exact emits_single ⟨rfl, noBearer_headers jsonBody, fun _ => ⟨rfl, hm⟩,
    fun _ => ⟨lit "system/checkin", rfl⟩⟩

theorem notifySend (method : Method) (url : Option Bytes) (subpath : Bytes) (body : Option Bytes) :
    Plain (notifySend cfg method url subpath body) :=
  neutral.notifySend fun _ _ a => cloud_send a

theorem checkinLegs (relax : Bool) : Plain (checkinLegs cfg relax) :=
  neutral.checkinLegs (fun s => (Emits PlainEvent).refl s)
    (fun _ _ a => checkin_send a (.inl rfl)) (fun _ _ _ a => cloud_send a)
    (fun _ _ _ a => checkin_send a (.inr rfl))

theorem guardCheckin {why : CheckinReason} {x : Cmd α} (hx : Plain x) : Plain (guardCheckin why x) :=
  Neutral.guardCheckin mark (fun _ _ => emits_nil) hx

theorem checkinRun (why : CheckinReason) (relax : Bool) : Plain (checkinRun cfg why relax) :=
  guardCheckin (.bind (checkinLegs relax) fun _ => .pure _)

theorem checkinRunInfo (why : CheckinReason) (relax : Bool) : Plain (checkinRunInfo cfg why relax) :=
  guardCheckin (.bind (checkinLegs relax) fun _ => neutral.harvest ..)

theorem recoveryCheckin : Plain (recoveryCheckin cfg) := checkinRun ..

theorem requestPlain {method : Method} {path : Bytes} {body : Option Bytes} (hp : lit "/api/" <+: path) :
    Plain (requestPlain cfg method path body .default) :=
  neutral.requestRawWith_plain (fun s => (Emits PlainEvent).refl s) (fun _ => recoveryCheckin)
    fun _ _ a => device_send a hp

theorem requestPlainJson {method : Method} {path : Bytes} {body : Option Bytes}
    (hp : lit "/api/" <+: path) : Plain (requestPlainJson cfg method path body) :=
  .bind (requestPlain hp) fun _ => neutral.parseBody ..

theorem extLoginPost {path body : Bytes} (hp : lit "/api/" <+: path) :
    Plain (extLoginPost cfg path body) :=
  neutral.extLoginPost (requestPlainJson hp) recoveryCheckin

theorem machinery : Machinery cfg (Emits PlainEvent) where
  toNeutral := neutral
  broker := notifySend
  plain method path body hp := requestPlain hp
  extPost path body hp := by
    rcases hp with rfl | rfl
    · exact extLoginPost ⟨lit "auth/ext/request", rfl⟩
    · exact extLoginPost ⟨lit "auth/ext/token", rfl⟩

theorem cachePut (scope token : Bytes) (exp : Int) : Plain (cachePut scope token exp) := by
  refine .bind .get fun s => .bind neutral.alloc fun _ => .ite (fun _ => .pure _) fun _ => ?_
  split
  · exact .bind (modifyAuth _) fun _ => .pure _
  · refine .bind neutral.alloc fun _ => .ite (fun _ => .pure _) fun _ => ?_
    refine .bind neutral.alloc fun _ => .ite (fun _ => .pure _) fun _ => ?_
    exact .bind (modifyAuth _) fun _ => .pure _

theorem needAuth : Plain needAuth := by
  refine .bind .get fun s => ?_
  split
  · exact .pure _
  · exact .bind neutral.need fun _ => .bind (modifyCtx _) fun _ => .pure _

theorem engine (cfg : Config) : Engine cfg (fun _ => True) (Emits PlainEvent) where
  toMachinery := machinery
  clock := timed.clock
  mark := mark
  latch _ := emits_nil
  checkin _ := checkinRun ..
  put _ _ _ _ := cachePut ..
  fresh _ _ := needAuth
  challenge := machinery.plainJson ⟨lit "auth/token", rfl⟩
  username _ := modifyAuth _
  redeem _ _ _ _ := machinery.redeemEjwt (fun _ _ => cachePut ..) (modifyAuth _)

theorem ensureToken (scope : Bytes) : Plain (ensureToken cfg scope) := (engine _).ensureToken trivial

theorem loginMarked (m : Mark) (passphrase : Bytes) : Plain (loginMarked cfg m passphrase) :=
  .bind neutral.clearError fun _ => .bind neutral.need fun _ => .bind needAuth fun _ =>
    .bind (modifyCtx _) fun _ => mark _

theorem loginMobile : Plain loginMobile :=
  .bind neutral.clearError fun _ => .bind needAuth fun _ => .bind (modifyCtx _) fun _ => mark _

theorem logout : Plain logout :=
  .bind neutral.clearError fun _ => .bind (modifyCtx _) fun _ => mark _

theorem authInvalidateAll : Plain authInvalidateAll := .bind (modifyAuth _) fun _ => mark _

theorem deviceInit (p : InitParams) (out : Bool) : Plain (deviceInit cfg p out) := by
  have hp : lit "/api/" <+: authInitPath := ⟨lit "auth/init", rfl⟩
  refine timed.deviceInit hp (fun _ _ _ h => requestPlainJson h) fun _ _ => ?_
  exact .bind (loginMarked ..) fun _ => (engine cfg).authCacheSeed trivial _

theorem takeHandle (i : Nat) : Plain (takeHandle i) := by
  refine .bind .get fun s => ?_
  split
  · exact .throw _
  · exact .pure _

theorem extConfirmBegin (url : Option Bytes) (scope : Bytes) (ctxStr note : Option Bytes) :
    Plain (extConfirmBegin cfg url scope ctxStr note) :=
  .bind ((engine _).confirmBegin ..) fun _ => .bind .get fun _ => .bind (modifyCtx _) fun _ => .pure _

theorem extConfirmPoll (i : Nat) : Plain (extConfirmPoll cfg i) :=
  .bind (takeHandle i) fun _ => .bind ((engine _).confirmPoll trivial) fun _ =>
    .bind (modifyCtx _) fun _ => Neutral.liftRc _

theorem extConfirmWait (i : Nat) (timeoutMs : Int) : Plain (extConfirmWait cfg i timeoutMs) :=
  .bind (takeHandle i) fun _ => .bind ((engine _).confirmWait trivial _) fun _ =>
    .bind (modifyCtx _) fun _ => Neutral.liftRc _

end Plain

end EncedoHem
