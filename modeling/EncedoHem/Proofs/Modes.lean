import EncedoHem.ExtPair
import EncedoHem.Proofs.Budget
import EncedoHem.Proofs.Handles
import EncedoHem.Proofs.Retention

namespace EncedoHem
open Text Dialogue

/-- A request for a confirmation to be pushed, or for one to be redeemed. -/
def Event.atPush : Event → Bool
  | ⟨.send none req, _⟩ => (req.path = extRequestPath || req.path = extTokenPath) && req.tlsOverride = .default
  | _ => false

/-- No confirmation is asked for, nor is any redeemed. -/
def Unpushed (es : List Event) : Prop := ∀ e ∈ es, e.atPush = false

theorem Unpushed.append {es es' : List Event} (h : Unpushed es) (h' : Unpushed es') : Unpushed (es ++ es') := by
  intro e he
  rcases List.mem_append.mp he with he | he
  · exact h e he
  · exact h' e he

theorem Unpushed.single {e : Event} (h : e.atPush = false) : Unpushed [e] := by
  intro d hd
  rw [List.mem_singleton.mp hd]
  exact h

theorem LegEvent.atPush {e : Event} (h : LegEvent e) : e.atPush = false := by
  obtain ⟨op, ans⟩ := e
  cases op with
  | send scope req =>
    obtain ⟨rfl, hov⟩ := h
    simp [Event.atPush, hov]
  | _ => rfl

/-- Nothing is pushed. -/
abbrev Pushless {α : Type} (x : Cmd α) : Prop := Keeps (Emits fun e : Event => e.atPush = false) x

namespace Pushless
variable {cfg : Config}

theorem timed : Timed (Emits fun e : Event => e.atPush = false) := by
  apply emits_timed
  intro e he
  obtain ⟨op, ans⟩ := e
  cases op with
  | send scope req => exact absurd he Bool.false_ne_true
  | _ => rfl

theorem calm {es : List Event} (h : Calm es) : Unpushed es := fun e he => timed.quiet .initial e (h e he) e (by simp)

theorem mark (m : Mark) : Pushless (mark m) := .ask fun _ _ => emits_single rfl

theorem checkinRun (why : CheckinReason) : Pushless (checkinRun cfg why true) := by
  have hlegs : Pushless (checkinLegs cfg true) :=
    (legs_checkinLegs cfg).mono fun _ _ _ h e he => (h.1 e he).atPush
  exact Neutral.guardCheckin mark (fun _ _ => emits_nil) (.bind hlegs fun _ => .pure _)

/-- A request to the login endpoint. -/
theorem requestLogin (method : Method) (body : Option Bytes) :
    Pushless (requestPlainJson cfg method authTokenPath body) := by
  have hpaths : authTokenPath ≠ extRequestPath ∧ authTokenPath ≠ extTokenPath := by decide +kernel
  refine .bind (timed.requestRawWith_plain (fun _ => emits_nil) (fun _ => checkinRun _) fun _ _ _ => ?_) fun _ =>
    timed.parseBody ..
  exact emits_single (by simp [Event.atPush, buildRequest, hpaths])

theorem cachePut {scope token : Bytes} {exp : Int} : Pushless (cachePut scope token exp) :=
  ⟨fun _ => wp_cachePut (fun _ hc => calm hc) fun _ hc => calm hc⟩

theorem loggingIn : LoggingIn cfg (fun _ => True) (Emits fun e : Event => e.atPush = false) where
  toNeutral := timed.toNeutral
  recovery := checkinRun .recovery
  challenge := requestLogin .get none
  username _ := .modify fun _ => emits_nil
  redeem scope ejwt now _ := by
    apply Keeps.bind timed.need
    intro _
    apply Keeps.bind (requestLogin ..)
    intro result
    split
    · exact timed.ctxFail ..
    · apply Keeps.bind (timed.peekClaim ..); intro exp
      apply Keeps.bind cachePut; intro put
      exact .ite (fun _ => .bind (.modify fun _ => emits_nil) fun _ => .pure _) fun _ => timed.outOfMemory

/-- What is acquired with the passphrase takes no push. -/
theorem acquirePassphrase (scope : Bytes) (now : Int) : Pushless (acquirePassphrase cfg scope now) :=
  loggingIn.acquirePassphrase timed mark (keeps_proactiveCheckin (fun _ => emits_nil) (checkinRun _)) trivial now

end Pushless

/-- The mode of the session stays, and only its side of the token engine is asked. -/
def apart : Contract Op Ans Ctx where
  rel s es s' := modeKept.rel s es s' ∧ (s.auth.any (·.mobile) = true → Unasked es) ∧
    (s.auth.any (·.mobile) = false → Unpushed es)
  refl s := ⟨modeKept.refl s, fun _ => Idle.calm .nil, fun _ => Pushless.calm .nil⟩
  trans h h' := ⟨modeKept.trans h.1 h'.1, fun hm => (h.2.1 hm).append (h'.2.1 (h.1.1.trans hm)),
    fun hm => (h.2.2 hm).append (h'.2.2 (h.1.1.trans hm))⟩

namespace Apart
variable {cfg : Config} {α : Type} {x : Cmd α}

/-- What asks neither side is within it. -/
theorem of_neither (hk : Keeps modeKept x) (hi : Idle x) (hp : Pushless x) : Keeps apart x :=
  ⟨fun s => wp_mono (wp_and (hk.run s) (wp_and (hi.run s) (hp.run s))) fun _ _ _ h =>
    ⟨h.1, fun _ => h.2.1, fun _ => h.2.2⟩⟩

theorem neutral : Neutral apart where
  quiet s e he := ⟨modeKept_authOnly.event s e, fun _ => Idle.timed.quiet s e he, fun _ => Pushless.timed.quiet s e he⟩
  error s d := ⟨modeKept_authOnly.timed.error s d, fun _ => Idle.timed.error s d, fun _ => Pushless.timed.error s d⟩

/-- The engine acquires a token on the side that the session is on. -/
theorem ensureToken (scope : Bytes) : Keeps apart (ensureToken cfg scope) := by
  have hidle : Confirming cfg (fun _ => True) (Emits fun e : Event => e.atLogin = false) :=
    confirming_of fun _ _ _ _ h => h
  refine ⟨fun s => wp_mono (wp_and (((modeKept_engine cfg).ensureToken trivial).run s) ?_) fun _ _ _ h => h⟩
  cases hm : s.auth.any (·.mobile) with
  | true =>
    have hunasked : wp (EncedoHem.ensureToken cfg scope) (fun es _ _ => Unasked es) s := by
      apply wp_ensureToken_of Idle.timed Idle.mark
      · exact fun _ _ _ => hidle.acquireMobile trivial
      · intro a pw ha hmob
        simp [ha, hmob] at hm
    exact wp_mono hunasked fun _ _ _ h => ⟨fun _ => h, fun hn => absurd hn (by simp)⟩
  | false =>
    have hunpushed : wp (EncedoHem.ensureToken cfg scope) (fun es _ _ => Unpushed es) s := by
      apply wp_ensureToken_of Pushless.timed Pushless.mark
      · intro a ha hmob
        simp [ha, hmob] at hm
      · exact fun _ _ _ _ _ now => Pushless.acquirePassphrase scope now
    exact wp_mono hunpushed fun _ _ _ h => ⟨fun hn => absurd hn (by simp), fun _ => h⟩

/-- So does a request, whatever is recovered and resent in it. -/
theorem requestRaw (method : Method) (path : Bytes) (body : Option Bytes) (scope : Bytes) (ov : TlsOverride) :
    Keeps apart (requestRaw cfg method path body (some scope) ov) := by
  apply neutral.requestRawWith
  · exact fun s => ⟨modeKept_authOnly.still _ _ rfl rfl id, fun _ => Idle.calm .nil, fun _ => Pushless.calm .nil⟩
  · exact fun _ => of_neither (modeKept_authOnly.checkinRun _) (Idle.checkinRun _) (Pushless.checkinRun _)
  · intro sc _
    exact of_neither (modeKept_modifyAuth fun _ => rfl) (.modify fun _ => emits_nil) (.modify fun _ => emits_nil)
  · exact fun sc _ => ensureToken sc
  · exact fun s bearer fresh a _ => ⟨modeKept_authOnly.event s _, fun _ => Unasked.single rfl, fun _ => Unpushed.single rfl⟩

end Apart

/-- The calls by which an authenticator is paired. -/
inductive Pairing where
  | init (epk : Bytes)
  | validate (pid reply : Bytes)
  | mac (epk : Bytes)

namespace Pairing
variable {cfg : Config}

abbrev Out : Pairing → Type
  | init _ => ExtInitInfo
  | validate .. => ExtValidateInfo
  | mac _ => ExtMacInfo

def cmd (cfg : Config) : (p : Pairing) → Cmd p.Out
  | init epk => (Api.extInit epk : Api cfg ExtInitInfo).cmd
  | validate pid reply => (Api.extValidate pid reply : Api cfg ExtValidateInfo).cmd
  | mac epk => (Api.extMac epk : Api cfg ExtMacInfo).cmd

theorem wp_needPassphraseSession (what : String) {s : Ctx} (hm : s.auth.any (·.mobile) = true) :
    wp (Api.needPassphraseSession what : Api cfg Unit).cmd (fun es r _ => r = .error .scopeDenied ∧ es = []) s := by
  change wp (EncedoHem.getCtx >>= fun s => Pure.pure (s.auth.any (·.mobile)) >>= fun mobile =>
    (if mobile then Api.ctxFail .scopeDenied 0 none _ else Pure.pure () : Api cfg Unit).cmd) _ s
  rw [wp_bind, wp_getCtx]
  dsimp only
  rw [hm, Cmd.pure_bind, if_pos rfl]
  exact wp_ctxFail.mpr fun copied => ⟨rfl, rfl⟩

/-- What follows the check of the session is not come to in a mobile one. -/
theorem wp_unpaired {α : Type} (what : String) (next : Unit → Cmd α) {s : Ctx} (hm : s.auth.any (·.mobile) = true) :
    wp (clearError >>= fun _ => (Api.needPassphraseSession what : Api cfg Unit).cmd >>= next)
      (fun es r _ => r = .error .scopeDenied ∧ es = []) s := by
  rw [wp_bind, wp_clearError]
  refine wp_bind_of (wp_needPassphraseSession what hm) (fun es a s₁ h => ?_) fun es rc s₁ h => ?_
  · cases h.1
  · exact ⟨congrArg _ (Except.error.inj h.1), h.2⟩

theorem refused (p : Pairing) {s : Ctx} (hm : s.auth.any (·.mobile) = true) :
    wp (p.cmd cfg) (fun es r _ => r = .error .scopeDenied ∧ es = []) s := by
  cases p with
  | init epk => exact wp_unpaired "ext/init" _ hm
  | validate pid reply => exact wp_unpaired "ext/validate" _ hm
  | mac epk => exact wp_unpaired "ext/mac" _ hm

end Pairing

/-- The two modes of a session do not mix: a request under a scope leaves the mode as it is, and in a mobile session
the login endpoint is never asked for its sake, in any other nothing is pushed. Pairing, which takes a passphrase, is
refused in a mobile session before anything happens. -/
theorem modes_apart (cfg : Config) :
    (∀ method path body scope ov s es r s', Runs (requestRaw cfg method path body (some scope) ov) s es r s' →
      s'.auth.any (·.mobile) = s.auth.any (·.mobile) ∧ (s.auth.any (·.mobile) = true → Unasked es) ∧
        (s.auth.any (·.mobile) = false → Unpushed es)) ∧
    ∀ (p : Pairing) s es r s', s.auth.any (·.mobile) = true → Runs (p.cmd cfg) s es r s' →
      r = .error .scopeDenied ∧ es = [] := by
  constructor
  · intro method path body scope ov s es r s' hrun
    obtain ⟨hmode, hmobile, hpass⟩ := (Apart.requestRaw method path body scope ov).run s es r s' hrun
    exact ⟨hmode.1, hmobile, hpass⟩
  · intro p s es r s' hm hrun
    exact p.refused hm es r s' hrun

/-- A request under a scope. -/
def scopedSample : Cmd Bytes := requestRaw .standard .get (lit "/api/a") none (some (lit "s")) .default

/-- The context after a mobile login. -/
def mobileCtx : Ctx := scriptState loginMobile .initial 5 []

theorem sample_modes_apart :
    Unasked (scriptEvents scopedSample mobileCtx 5 pushAnswers) ∧
      Unpushed (scriptEvents scopedSample Ctx.loggedIn 5 [sampleChallenge]) ∧
      scriptResult (Pairing.cmd .standard (.mac [])) mobileCtx 5 [] = .error .scopeDenied := by
  have hmobile : mobileCtx.auth.any (·.mobile) = true := by decide +kernel
  have hpass : Ctx.loggedIn.auth.any (·.mobile) = false := by decide +kernel
  obtain ⟨hrequest, hpairing⟩ := modes_apart .standard
  refine ⟨?_, ?_, ?_⟩
  · exact (hrequest _ _ _ _ _ _ _ _ _ (script_runs scopedSample mobileCtx 5 pushAnswers)).2.1 hmobile
  · exact (hrequest _ _ _ _ _ _ _ _ _ (script_runs scopedSample Ctx.loggedIn 5 [sampleChallenge])).2.2 hpass
  · exact (hpairing (.mac []) _ _ _ _ hmobile (script_runs ..)).1

end EncedoHem
