import EncedoHem.Proofs.Neutral

namespace EncedoHem
open Text Dialogue

/-- What a contract has to allow for the confirm engine, which writes cache entries of the
scopes of `P` only. -/
structure Confirming (cfg : Config) (P : Bytes → Prop) (K : Contract Op Ans Ctx) : Prop
    extends Pushing cfg K, Timed K where
  mark : ∀ m, Keeps K (mark m)
  latch : ∀ s : Ctx, K.rel s [] { s with checkinOnLoginDone := true }
  checkin : ∀ why, Keeps K (checkinRun cfg why true)
  put : ∀ scope token exp, P scope → Keeps K (cachePut scope token exp)
  fresh : ∀ scope, P scope → Keeps K needAuth

theorem keeps_proactiveCheckin {cfg : Config} {K : Contract Op Ans Ctx}
    (hl : ∀ s : Ctx, K.rel s [] { s with checkinOnLoginDone := true }) (hc : Keeps K (checkinRun cfg .proactive true)) :
    Keeps K (proactiveCheckin cfg) := by
  refine .bind .get fun s => .ite (fun _ => .bind (.modify hl) fun _ => ?_) fun _ => .pure _
  refine .bind (.attempt hc) fun r => ?_
  split
  · exact .pure _
  · exact .pure _

namespace Confirming
variable {cfg : Config} {P : Bytes → Prop} {K : Contract Op Ans Ctx} (h : Confirming cfg P K)
  {scope : Bytes}
include h

theorem recoverPush (url : Option Bytes) (scope : Bytes) (ctxStr note : Option Bytes) (push : Push) :
    Keeps K (recoverPush cfg url scope ctxStr note push) := by
  refine .bind .get fun s => ?_
  split
  · refine .ite (fun _ => .bind (h.authreqDrift _) fun drift => ?_) fun _ => .pure _
    refine .ite (fun _ => .bind (.attempt (h.checkin _)) fun crc => ?_) fun _ => .pure _
    split
    · exact .bind (h.confirmFirePush ..) fun _ => .pure _
    · exact .pure _
  · exact .pure _

theorem confirmBegin (url : Option Bytes) (scope : Bytes) (ctxStr note : Option Bytes) :
    Keeps K (confirmBegin cfg url scope ctxStr note) :=
  h.toPushing.confirmBegin fun _ => h.recoverPush ..

theorem authCacheSeed (hp : P scope) (token : Bytes) : Keeps K (authCacheSeed scope token) :=
  .bind (h.fresh _ hp) fun _ => .bind (h.peekClaim ..) fun _ => .bind (h.expiryOr _) fun _ =>
    .bind (h.put _ _ _ hp) fun _ => .ite (fun _ => .pure _) fun _ => h.outOfMemory

theorem confirmRedeem (hp : P scope) (authreply : Bytes) : Keeps K (confirmRedeem cfg scope authreply) :=
  .bind (h.mark _) fun _ => .bind (h.extToken _) fun _ =>
    .bind (h.authCacheSeed hp _) fun _ => .pure _

theorem confirmPoll {c : Confirm} (hp : P c.scope) : Keeps K (confirmPoll cfg c) :=
  h.toPushing.confirmPoll fun _ => h.confirmRedeem hp _

theorem confirmWait {c : Confirm} (hp : P c.scope) (timeoutMs : Int) :
    Keeps K (confirmWait cfg c timeoutMs) :=
  h.toPushing.confirmWait fun _ hc => h.confirmPoll (hc ▸ hp)

omit h in
/-- A handle that begins is one for the scope it was asked for. -/
theorem yields_confirmBegin (url : Option Bytes) (scope : Bytes) (ctxStr note : Option Bytes) :
    Yields (EncedoHem.confirmBegin cfg url scope ctxStr note) fun c => c.scope = scope := by
  have hnew : Yields (newConfirm url scope) fun c => c.scope = scope := by
    refine .bind fun _ => .bind fun _ => ?_
    split
    · exact .pure rfl
    · exact .bind fun _ => .pure rfl
  refine .bind_of hnew fun c hc => .bind fun push => .bind fun outcome => ?_
  split
  · exact .throw _ _
  · exact .bind fun _ => .pure hc

theorem proactiveCheckin : Keeps K (proactiveCheckin cfg) := keeps_proactiveCheckin h.latch (h.checkin _)

theorem acquireMobile (hp : P scope) : Keeps K (acquireMobile cfg scope) := by
  refine .bind (h.mark _) fun _ => .bind h.proactiveCheckin fun failed => ?_
  refine .bind_yields (h.confirmBegin ..) (yields_confirmBegin ..) fun c hc => ?_
  refine .bind (h.confirmWait (hc ▸ hp) _) fun ⟨r, c⟩ => ?_
  refine .bind (Neutral.liftRc _) fun _ => .bind .get fun s => ?_
  split
  · exact h.ctxFail ..
  · exact .bind (h.mark _) fun _ => .pure _

end Confirming

namespace Neutral
variable {cfg : Config} {K : Contract Op Ans Ctx} (h : Neutral K)
include h

theorem noteUsername (hu : ∀ lbl, Keeps K (modifyAuth fun a => { a with username := some lbl })) (challenge : Json) :
    Keeps K (noteUsername challenge) := by
  unfold EncedoHem.noteUsername
  split
  · exact .pure _
  · exact .bind h.alloc fun _ => .ite (fun _ => hu _) fun _ => .pure _

/-- What comes after the challenge keeps what its writes and the redeeming of the login token keep. -/
theorem answerChallenge (hu : ∀ lbl, Keeps K (modifyAuth fun a => { a with username := some lbl })) {scope : Bytes}
    {now : Int} (hr : ∀ ejwt, Keeps K (redeemEjwt cfg scope ejwt now)) (challenge : Json) :
    Keeps K (answerChallenge cfg scope now challenge) := by
  unfold EncedoHem.answerChallenge
  split
  · refine .bind (h.noteUsername hu _) fun _ => ?_
    split
    · exact h.ctxFail ..
    · refine .bind (.attempt (h.deriveEjwt ..)) fun ejwt => ?_
      split
      · exact h.ctxFail ..
      · exact hr _
  · exact h.ctxFail ..

end Neutral

/-- What a contract has to allow for one run of the login flow: its two requests, the second with
what is made of its answer, and the check-in that may recover the first. -/
structure LoggingIn (cfg : Config) (P : Bytes → Prop) (K : Contract Op Ans Ctx) : Prop extends Neutral K where
  recovery : Keeps K (recoveryCheckin cfg)
  challenge : Keeps K (requestPlainJson cfg .get authTokenPath none)
  username : ∀ lbl, Keeps K (modifyAuth fun a => { a with username := some lbl })
  redeem : ∀ scope ejwt now, P scope → Keeps K (redeemEjwt cfg scope ejwt now)

namespace LoggingIn
variable {cfg : Config} {P : Bytes → Prop} {K : Contract Op Ans Ctx} (h : LoggingIn cfg P K) {scope : Bytes}
include h

theorem fetchChallenge (spent : Bool) : Keeps K (fetchChallenge cfg spent) := by
  refine .bind (.attempt h.challenge) fun r => .bind .get fun s => ?_
  split
  · exact .pure _
  · refine .ite (fun _ => .bind (.attempt h.recovery) fun crc => ?_) fun _ => .pure _
    split
    · exact .bind .get fun s => .bind (.attempt (h.ctxFail ..)) fun _ => .pure _
    · exact .bind (.attempt h.challenge) fun _ => .pure _

theorem acquireToken (hp : P scope) (now : Int) (spent : Bool) :
    Keeps K (acquireToken cfg scope now spent) := by
  refine .bind (h.ask rfl) fun init => ?_
  split
  · exact .bind (.attempt (h.ctxFail ..)) fun _ => .pure _
  · refine .bind (h.fetchChallenge spent) fun ⟨r, spent⟩ => ?_
    dsimp only
    split
    · exact .pure _
    · exact .bind (.attempt (h.toNeutral.answerChallenge h.username (fun _ => h.redeem _ _ _ hp) _)) fun _ => .pure _

theorem recoverDrift (ht : Timed K) (hp : P scope) (a : Acquired) : Keeps K (recoverDrift cfg scope a) := by
  refine .bind .get fun s => ?_
  split
  · refine .ite (fun _ => .bind (.attempt h.recovery) fun crc => ?_) fun _ => .pure _
    split
    · exact .bind (ht.askClock rfl) fun _ => .bind (h.acquireToken hp ..) fun _ => .pure _
    · exact .bind .get fun s => .attempt (h.ctxFail ..)
  · exact .pure _

/-- The login flow with the check-in that may go before it and the recovery that may follow. -/
theorem acquirePassphrase (ht : Timed K) (hm : ∀ m, Keeps K (mark m)) (hc : Keeps K (proactiveCheckin cfg))
    (hp : P scope) (now : Int) : Keeps K (acquirePassphrase cfg scope now) := by
  refine .bind (hm _) fun _ => .bind hc fun failed => ?_
  refine .bind (h.acquireToken hp ..) fun a => .bind (h.recoverDrift ht hp _) fun r => ?_
  refine .bind (Neutral.liftRc _) fun token => .bind (h.breadcrumb _) fun _ => ?_
  exact .bind (hm _) fun _ => .pure _

end LoggingIn

/-- What a contract has to allow for the token engine: besides pushes the two requests of the
login exchange, the second with what is made of its answer. -/
structure Acquiring (cfg : Config) (P : Bytes → Prop) (K : Contract Op Ans Ctx) : Prop
    extends Confirming cfg P K where
  challenge : Keeps K (requestPlainJson cfg .get authTokenPath none)
  username : ∀ lbl, Keeps K (modifyAuth fun a => { a with username := some lbl })
  redeem : ∀ scope ejwt now, P scope → Keeps K (redeemEjwt cfg scope ejwt now)

namespace Acquiring
variable {cfg : Config} {P : Bytes → Prop} {K : Contract Op Ans Ctx} (h : Acquiring cfg P K)
  {scope : Bytes}
include h

theorem loggingIn : LoggingIn cfg P K := { h with recovery := h.checkin .recovery }

theorem acquireToken (hp : P scope) (now : Int) (spent : Bool) : Keeps K (acquireToken cfg scope now spent) :=
  h.loggingIn.acquireToken hp now spent

theorem recoverDrift (hp : P scope) (a : Acquired) : Keeps K (recoverDrift cfg scope a) :=
  h.loggingIn.recoverDrift h.toTimed hp a

theorem acquirePassphrase (hp : P scope) (now : Int) : Keeps K (acquirePassphrase cfg scope now) :=
  h.loggingIn.acquirePassphrase h.toTimed h.mark h.proactiveCheckin hp now

theorem ensureToken (hp : P scope) : Keeps K (ensureToken cfg scope) := by
  refine .bind (h.askClock rfl) fun now => .bind .get fun s => ?_
  split
  · exact .bind (h.mark _) fun _ => .pure _
  · split
    · refine .ite (fun _ => h.acquireMobile hp) fun _ => ?_
      split
      · exact h.acquirePassphrase hp _
      · exact h.ctxFail ..
    · exact h.ctxFail ..

end Acquiring

/-- What a contract has to allow for everything that a session is driven by. -/
structure Engine (cfg : Config) (P : Bytes → Prop) (K : Contract Op Ans Ctx) : Prop
    extends Machinery cfg K, Acquiring cfg P K

/-- Redeeming a login token keeps what its request keeps and the writes that it makes. -/
theorem Machinery.redeemEjwt {cfg : Config} {K : Contract Op Ans Ctx} (h : Machinery cfg K) {scope ejwt : Bytes}
    {now : Int} (put : ∀ token exp, Keeps K (cachePut scope token exp))
    (afterUse : Keeps K (modifyAuth Auth.afterUse)) : Keeps K (redeemEjwt cfg scope ejwt now) := by
  refine .bind h.need fun _ => .bind (h.plainJson ⟨lit "auth/token", rfl⟩) fun result => ?_
  split
  · exact h.ctxFail ..
  · refine .bind (h.peekClaim ..) fun exp => .bind (put ..) fun put => ?_
    exact .ite (fun _ => .bind afterUse fun _ => .pure _) fun _ => h.outOfMemory

/-- A contract that is about the session state and the client's handles only, and about the
latch of the proactive check-in as far as it is never let down. -/
structure AuthOnly (K : Contract Op Ans Ctx) : Prop where
  event : ∀ s e, K.rel s [e] s
  still : ∀ s s' : Ctx, s'.auth = s.auth → s'.handles = s.handles →
    (s.checkinOnLoginDone = true → s'.checkinOnLoginDone = true) → K.rel s [] s'

namespace AuthOnly
variable {cfg : Config} {K : Contract Op Ans Ctx} (h : AuthOnly K)
include h

theorem timed : Timed K where
  quiet s e _ := h.event s e
  error _ _ := h.still _ _ rfl rfl id
  clock s e _ := h.event s e

theorem mark (m : Mark) : Keeps K (mark m) := .ask fun s _ => h.event s _

theorem guardCheckin {α : Type} {why : CheckinReason} {x : Cmd α} (hx : Keeps K x) :
    Keeps K (guardCheckin why x) :=
  Neutral.guardCheckin h.mark (fun _ _ => h.still _ _ rfl rfl id) hx

theorem checkinLegs : Keeps K (checkinLegs cfg true) :=
  h.timed.checkinLegs (fun _ => h.still _ _ rfl rfl id) (fun s _ _ => h.event s _)
    (fun s _ _ _ => h.event s _) (fun s _ _ _ => h.event s _)

theorem checkinRun (why : CheckinReason) : Keeps K (checkinRun cfg why true) :=
  h.guardCheckin (.bind h.checkinLegs fun _ => .pure _)

theorem checkinRunInfo (why : CheckinReason) : Keeps K (checkinRunInfo cfg why true) :=
  h.guardCheckin (.bind h.checkinLegs fun _ => h.timed.harvest ..)

/-- A request without a scope. -/
theorem requestPlain {method : Method} {path : Bytes} {body : Option Bytes} :
    Keeps K (requestPlain cfg method path body .default) :=
  h.timed.requestRawWith_plain (fun _ => h.still _ _ rfl rfl id) (fun _ => h.checkinRun _)
    fun s _ _ => h.event s _

theorem requestPlainJson {method : Method} {path : Bytes} {body : Option Bytes} :
    Keeps K (requestPlainJson cfg method path body) :=
  .bind h.requestPlain fun _ => h.timed.parseBody ..

theorem notifySend (method : Method) (url : Option Bytes) (subpath : Bytes) (body : Option Bytes) :
    Keeps K (notifySend cfg method url subpath body) :=
  h.timed.notifySend fun s _ _ => h.event s _

theorem extLoginPost (path body : Bytes) : Keeps K (extLoginPost cfg path body) :=
  h.timed.extLoginPost h.requestPlainJson (h.checkinRun _)

theorem machinery : Machinery cfg K where
  toNeutral := h.timed.toNeutral
  broker := h.notifySend
  plain _ _ _ _ := h.requestPlain
  extPost _ _ _ := h.extLoginPost ..

/-- The token engine keeps what the writes to the session state keep. -/
theorem engine {P : Bytes → Prop}
    (username : ∀ lbl, Keeps K (modifyAuth fun a => { a with username := some lbl }))
    (put : ∀ scope token exp, P scope → Keeps K (cachePut scope token exp))
    (afterUse : ∀ scope, P scope → Keeps K (modifyAuth Auth.afterUse))
    (fresh : ∀ scope, P scope → Keeps K needAuth) : Engine cfg P K where
  toMachinery := h.machinery
  clock := h.timed.clock
  mark := h.mark
  latch _ := h.still _ _ rfl rfl fun _ => rfl
  checkin := h.checkinRun
  put := put
  fresh := fresh
  challenge := h.requestPlainJson
  username := username
  redeem _ _ _ hp := h.machinery.redeemEjwt (fun _ _ => put _ _ _ hp) (afterUse _ hp)

end AuthOnly

end EncedoHem
