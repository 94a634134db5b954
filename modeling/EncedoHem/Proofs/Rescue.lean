import EncedoHem.Proofs.Aliasing

namespace EncedoHem
open Text Dialogue

/-- The functions that start a recovery check-in. -/
inductive RescueSite where
  | requestRaw | fetchChallenge | ensureToken | extLoginPost | confirmBegin
  deriving DecidableEq, Repr

/-- The status of the failure that the function tries to cure. -/
def RescueSite.status : RescueSite → Int
  | .requestRaw => 0
  | .fetchChallenge => 403
  | .ensureToken => 401
  | .extLoginPost => 403
  | .confirmBegin => 401

/-- What a call has failed with. -/
def failure {α : Type} : Except Rc α → Option Rc
  | .ok _ => none
  | .error rc => some rc

/-- `ehem_auth_ensure_token` for a scope without a usable entry in a passphrase session, up to its
first run of the login flow: the clock read `now`, and `failed` tells of the proactive check-in. -/
structure FlowStart (cfg : Config) (scope : Bytes) (s : Ctx) (now : Int) (es : List Event) (failed : Bool)
    (s' : Ctx) : Prop where
  missing : s.freshEntry scope now = none
  session : ∃ a, s.auth = some a ∧ a.mobile = false ∧ a.passphrase.isSome = true
  proactive : Runs (proactiveCheckin cfg) s es (.ok failed) s'

/-- `Rescue cfg site check rc r s'`: a call of the function failed with `rc`, the exchanges `check` are
those of the recovery check-in that it started for that and that failed too, and the call came to the
failure `r` and left the context `s'`. -/
inductive Rescue (cfg : Config) : RescueSite → List Event → Rc → Option Rc → Ctx → Prop where
  | requestRaw {ensure : Bytes → Cmd Bytes} {method : Method} {path detail : Bytes} {jsonBody scope : Option Bytes}
      {ov : TlsOverride} {why : SendFailure} {bearer : Option Bytes} {rc : Rc} {r : Except Rc Bytes}
      {es check rest : List Event} {s s₀ s₁ s' : Ctx}
      (held : Runs (acquireBearer ensure scope) s es (.ok bearer) s₀)
      (failed : Runs (recoveryCheckin cfg) s₀ check (.error rc) s₁)
      (run : Runs (requestRawWith cfg ensure (recoveryCheckin cfg) method path jsonBody scope ov) s
        (es ++ ((pause cfg ++ [⟨.send scope (buildRequest cfg method path jsonBody bearer ov false),
          .failed why true detail⟩]) ++ (check ++ rest))) r s') :
      Rescue cfg .requestRaw check why.rc (failure r) s'
  | fetchChallenge {scope : Bytes} {now : Int} {proactive : Bool} {rc rc' : Rc} {r : Except Rc Bytes}
      {es es' check rest : List Event} {s s₀ s₁ s₂ s' : Ctx}
      (start : FlowStart cfg scope s now es proactive s₀)
      (asked : Runs (requestPlainJson cfg .get authTokenPath none) s₀ es' (.error rc) s₁)
      (failed : Runs (recoveryCheckin cfg) s₁ check (.error rc') s₂)
      (run : Runs (ensureToken cfg scope) s ([⟨.authNow, now⟩] ++ ([⟨.mark .acquire, ()⟩] ++
        (es ++ ([⟨.globalInit, .ok ()⟩] ++ (es' ++ (check ++ rest)))))) r s') :
      Rescue cfg .fetchChallenge check rc (failure r) s'
  | ensureToken {scope : Bytes} {now : Int} {proactive : Bool} {a : Acquired} {rc rc' : Rc} {r : Except Rc Bytes}
      {es es' check rest : List Event} {s s₀ s₁ s₂ s' : Ctx}
      (start : FlowStart cfg scope s now es proactive s₀)
      (acquired : Runs (acquireToken cfg scope now false) s₀ es' (.ok a) s₁) (failure : a.outcome = .error rc)
      (failed : Runs (recoveryCheckin cfg) s₁ check (.error rc') s₂)
      (run : Runs (EncedoHem.ensureToken cfg scope) s ([⟨.authNow, now⟩] ++ ([⟨.mark .acquire, ()⟩] ++
        (es ++ (es' ++ (check ++ rest))))) r s') :
      Rescue cfg .ensureToken check rc (EncedoHem.failure r) s'
  | extLoginPost {path body : Bytes} {rc rc' : Rc} {r : Except Rc Json}
      {es check rest : List Event} {s s₀ s₁ s' : Ctx}
      (asked : Runs (requestPlainJson cfg .post path (some body)) s es (.error rc) s₀)
      (failed : Runs (recoveryCheckin cfg) s₀ check (.error rc') s₁)
      (run : Runs (EncedoHem.extLoginPost cfg path body) s (es ++ (check ++ rest)) r s') :
      Rescue cfg .extLoginPost check rc (failure r) s'
  | confirmBegin {url : Option Bytes} {scope : Bytes} {ctxStr note : Option Bytes} {c : Confirm}
      {reqi : ExtRequestInfo} {drift : Int} {rc rc' : Rc} {r : Except Rc Confirm}
      {es es' es'' check rest : List Event} {s s₀ s₁ s₂ s₃ s' : Ctx}
      (made : Runs (newConfirm url scope) s es (.ok c) s₀)
      (pushed : Runs (confirmFirePush cfg url scope ctxStr note) s₀ es' (.ok ⟨.error rc, some reqi⟩) s₁)
      (measured : Runs (authreqDrift reqi.authreq) s₁ es'' (.ok drift) s₂)
      (failed : Runs (recoveryCheckin cfg) s₂ check (.error rc') s₃)
      (run : Runs (EncedoHem.confirmBegin cfg url scope ctxStr note) s
        (es ++ (es' ++ (es'' ++ (check ++ rest)))) r s') :
      Rescue cfg .confirmBegin check rc (failure r) s'

/-- The call has failed as it did before its rescue, under the status that it failed with. -/
def RescueSite.Kept (site : RescueSite) (rc : Rc) (r : Option Rc) (s' : Ctx) : Prop :=
  r = some rc ∧ s'.lastError.httpStatus = site.status

/-- The last dispatch was answered with the status. -/
def EndsWith (es : List Event) (status : Int) : Prop :=
  ∃ resp, lastAnswer es = some (.done resp) ∧ resp.status = status

section
variable {cfg : Config} {check rest : List Event} {s s₁ s' : Ctx}

/-- `ehem_auth_ensure_token` taken up where the login flow starts. -/
theorem FlowStart.resume {scope : Bytes} {now : Int} {failed : Bool} {r : Except Rc Bytes}
    {es : List Event} (start : FlowStart cfg scope s now es failed s₁)
    (run : Runs (ensureToken cfg scope) s ([⟨.authNow, now⟩] ++ ([⟨.mark .acquire, ()⟩] ++ (es ++ rest))) r s') :
    Runs (acquireToken cfg scope now false >>= fun a => recoverDrift cfg scope a >>= fun r =>
      liftRc r >>= fun token => do
        breadcrumb failed
        mark (.granted scope token none)
        pure token) s₁ rest r s' := by
  obtain ⟨a, hauth, hmobile, hpass⟩ := start.session
  have hclock : Runs authNow s [⟨.authNow, now⟩] (.ok now) s := run_ask.mpr ⟨now, [], rfl, .ret _⟩
  have hmark : Runs (mark .acquire) s [⟨.mark .acquire, ()⟩] (.ok ()) s := run_ask.mpr ⟨(), [], rfl, .ret _⟩
  have hread := Runs.get (run.resume hclock)
  rw [start.missing, hauth] at hread
  dsimp only at hread
  rw [hmobile, if_neg Bool.false_ne_true] at hread
  cases hp : a.passphrase with
  | none =>
    rw [hp] at hpass
    cases hpass
  | some p =>
    rw [hp] at hread
    exact (hread.resume hmark).resume start.proactive

/-- After a failed run of the login flow that is past any rescue the acquisition is over. -/
theorem wp_acquisition_over {scope : Bytes} {failed spent : Bool} {rc : Rc} {s : Ctx} :
    wp (recoverDrift cfg scope ⟨.error rc, spent, false⟩ >>= fun r => liftRc r >>= fun token => do
      breadcrumb failed
      mark (.granted scope token none)
      pure token) (fun es r s' => es = [] ∧ r = .error rc ∧ s' = s) s := by
  have hpass : recoverDrift cfg scope ⟨.error rc, spent, false⟩ = getCtx >>= fun _ => pure (.error rc) := by
    unfold recoverDrift
    funext s
    cases rc <;> rfl
  rw [hpass]
  simp [liftRc]

theorem challenge_kept {scope : Bytes} {now : Int} {proactive : Bool} {rc rc' : Rc} {r : Except Rc Bytes}
    {es es' : List Event} {s₀ s₂ : Ctx} (start : FlowStart cfg scope s now es proactive s₀)
    (asked : Runs (requestPlainJson cfg .get authTokenPath none) s₀ es' (.error rc) s₁)
    (failed : Runs (recoveryCheckin cfg) s₁ check (.error rc') s₂)
    (run : Runs (ensureToken cfg scope) s ([⟨.authNow, now⟩] ++ ([⟨.mark .acquire, ()⟩] ++
      (es ++ ([⟨.globalInit, .ok ()⟩] ++ (es' ++ (check ++ rest)))))) r s') :
    RescueSite.fetchChallenge.Kept rc (failure r) s' := by
  have hflow := start.resume run
  have hinit : Runs globalInit s₀ [⟨.globalInit, .ok ()⟩] (.ok (.ok ())) s₀ := run_ask.mpr ⟨.ok (), [], rfl, .ret _⟩
  unfold acquireToken at hflow
  rw [Cmd.bind_assoc] at hflow
  have hfetch := hflow.resume hinit
  rw [Cmd.bind_assoc] at hfetch
  obtain ⟨s₃, rest', ⟨-, hstatus⟩, hrest⟩ := challenge_told asked failed
    (wp_mono wp_acquisition_over fun _ _ _ h => h.1) hfetch
  obtain ⟨-, rfl, rfl⟩ := wp_acquisition_over _ _ _ hrest
  exact ⟨rfl, hstatus⟩

theorem token_kept {scope : Bytes} {now : Int} {proactive : Bool} {a : Acquired} {rc rc' : Rc}
    {r : Except Rc Bytes} {es es' : List Event} {s₀ s₂ : Ctx} (start : FlowStart cfg scope s now es proactive s₀)
    (acquired : Runs (acquireToken cfg scope now false) s₀ es' (.ok a) s₁) (ha : a.outcome = .error rc)
    (failed : Runs (recoveryCheckin cfg) s₁ check (.error rc') s₂)
    (run : Runs (ensureToken cfg scope) s ([⟨.authNow, now⟩] ++ ([⟨.mark .acquire, ()⟩] ++
      (es ++ (es' ++ (check ++ rest))))) r s') : RescueSite.ensureToken.Kept rc (failure r) s' := by
  have hflow := (start.resume run).resume acquired
  have hover : wp (liftRc a.outcome >>= fun token => do
      breadcrumb proactive
      mark (.granted scope token none)
      pure token) (fun es _ _ => es = []) s₁ := by
    rw [ha]
    simp [liftRc]
  obtain ⟨s₃, rest', ⟨-, hstatus⟩, hrest⟩ := token_told failed hover hflow
  rw [ha] at hrest
  obtain ⟨-, hend⟩ := run_ret.mp hrest
  obtain ⟨rfl, rfl⟩ := Prod.mk.inj hend
  exact ⟨rfl, hstatus⟩

/-- A push keeps its return code, and the check-in's record stays. -/
theorem confirm_told {url : Option Bytes} {scope : Bytes} {ctxStr note : Option Bytes} {c : Confirm}
    {reqi : ExtRequestInfo} {drift : Int} {rc rc' : Rc} {r : Except Rc Confirm}
    {es es' es'' : List Event} {s₀ s₂ s₃ : Ctx} (made : Runs (newConfirm url scope) s es (.ok c) s₀)
    (pushed : Runs (confirmFirePush cfg url scope ctxStr note) s₀ es' (.ok ⟨.error rc, some reqi⟩) s₁)
    (measured : Runs (authreqDrift reqi.authreq) s₁ es'' (.ok drift) s₂)
    (failed : Runs (recoveryCheckin cfg) s₂ check (.error rc') s₃)
    (run : Runs (confirmBegin cfg url scope ctxStr note) s (es ++ (es' ++ (es'' ++ (check ++ rest)))) r s') :
    failure r = some rc ∧ s' = s₃ := by
  have hne := checkin_ne_nil failed
  have hpush := (run.resume made).resume pushed
  unfold recoverPush at hpush
  rw [Cmd.bind_assoc] at hpush
  have htry := Runs.get hpush
  dsimp only at htry
  have hover : ∀ {k : Except Rc Bytes → Cmd Confirm} (s : Ctx), k (.error rc) = throwRc rc →
      wp ((Pure.pure (.error rc) : Cmd (Except Rc Bytes)) >>= k)
        (fun es r s' => es = [] ∧ r = .error rc ∧ s' = s) s := by
    intro k s hk
    simp [hk]
  split at htry
  · rw [Cmd.bind_assoc] at htry
    have hdrift := htry.resume measured
    split at hdrift
    · rw [Cmd.bind_assoc] at hdrift
      obtain ⟨-, rfl, rfl⟩ := hover _ rfl _ _ _ (hdrift.resume failed.attempt)
      exact ⟨rfl, rfl⟩
    · exact absurd (hover _ rfl _ _ _ hdrift).1 (by simp [hne])
  · exact absurd (hover _ rfl _ _ _ htry).1 (by simp [hne])

end

theorem Recorded.ends_iff {es : List Event} {d : ErrorDetail} (h : Recorded es d) :
    d.httpStatus = 401 ↔ EndsWith es 401 := by
  rw [h.status]
  unfold EndsWith
  cases hl : lastAnswer es with
  | none => simp
  | some a =>
    cases a with
    | failed why expired detail => simp [Answer.faultStatus]
    | done resp =>
      simp only [Option.map_some, Option.getD_some, Answer.faultStatus, Option.some.injEq, Answer.done.injEq,
        exists_eq_left']
      constructor
      · intro hs
        split at hs
        · exact hs
        · cases hs
      · intro hs
        have hfault : resp.fault.isSome = true := by simp [Response.fault, hs]
        rw [if_pos hfault, hs]

/-- A call fails as it did before its failed rescue, and under that failure's status, if and only if it is
none that begins a confirmation or the check-in itself ended with a 401: there the record is left as
the check-in's last leg made it. -/
theorem rescue_keeps_failure_iff {cfg : Config} {site : RescueSite} {check : List Event} {rc : Rc}
    {r : Option Rc} {s' : Ctx} (h : Rescue cfg site check rc r s') :
    site.Kept rc r s' ↔ (site = .confirmBegin → EndsWith check 401) := by
  cases h with
  | requestRaw held failed run =>
    obtain ⟨-, rfl, hs⟩ := request_told held failed run
    exact iff_of_true ⟨rfl, hs⟩ (by simp)
  | fetchChallenge start asked failed run =>
    exact iff_of_true (challenge_kept start asked failed run) (by simp)
  | ensureToken start acquired ha failed run =>
    exact iff_of_true (token_kept start acquired ha failed run) (by simp)
  | extLoginPost asked failed run =>
    obtain ⟨-, rfl, hs⟩ := extLogin_told asked failed run
    exact iff_of_true ⟨rfl, hs⟩ (by simp)
  | confirmBegin made pushed measured failed run =>
    obtain ⟨hr, rfl⟩ := confirm_told made pushed measured failed run
    have hrecord := (wp_checkinRun cfg .recovery _ _ _ _ failed).told _ rfl
    rw [← hrecord.ends_iff]
    exact ⟨fun hk _ => hk.2, fun hk => ⟨hr, hk rfl⟩⟩

/-- A refusal that is taken for drift, when the check-in for it fails. -/
theorem confirmBegin_rescue {cfg : Config} {url : Option Bytes} {scope : Bytes} {ctxStr note : Option Bytes}
    {c : Confirm} {reqi : ExtRequestInfo} {drift : Int} {rc rc' : Rc} {es es' es'' check : List Event}
    {s s₀ s₁ s₂ s₃ : Ctx} (made : Runs (newConfirm url scope) s es (.ok c) s₀)
    (pushed : Runs (confirmFirePush cfg url scope ctxStr note) s₀ es' (.ok ⟨.error rc, some reqi⟩) s₁)
    (measured : Runs (authreqDrift reqi.authreq) s₁ es'' (.ok drift) s₂)
    (failed : Runs (recoveryCheckin cfg) s₂ check (.error rc') s₃)
    (hguard : s₁.lastError.httpStatus = 401 ∧ ¬cfg.noAutoCheckin ∧ ¬s₁.inCheckin)
    (hdrift : brokerDriftEvident drift = true) : Rescue cfg .confirmBegin check rc (some rc) s₃ := by
  have hcheck : ∀ {k : Except Rc Unit → Cmd (Except Rc Bytes)}, k (.error rc') = Pure.pure (.error rc) →
      Runs (if brokerDriftEvident drift then (recoveryCheckin cfg).attempt >>= k else Pure.pure (.error rc))
        s₂ (check ++ []) (.ok (.error rc)) s₃ := by
    intro k hk
    rw [if_pos hdrift]
    exact failed.attempt.bind (hk ▸ .ret _)
  have hpass : Runs (recoverPush cfg url scope ctxStr note ⟨.error rc, some reqi⟩) s₁ (es'' ++ (check ++ []))
      (.ok (.error rc)) s₃ := by
    show Runs (if s₁.lastError.httpStatus = 401 ∧ ¬cfg.noAutoCheckin ∧ ¬s₁.inCheckin then _ else _) _ _ _ _
    rw [if_pos hguard]
    exact measured.bind (hcheck rfl)
  have hrun : Runs (confirmBegin cfg url scope ctxStr note) s (es ++ (es' ++ ((es'' ++ (check ++ [])) ++ [])))
      (.error rc) s₃ := made.bind (pushed.bind (hpass.bind (.ret _)))
  rw [List.append_nil (es'' ++ _)] at hrun
  exact .confirmBegin made pushed measured failed hrun

/-- The answers to a push that the broker refuses: the authreq's `iat` is 100. -/
def aheadAnswers : List Answer :=
  [.object [("epk", .str (lit "AAAAAAAAAAAAAAAAAAAAAAAAAAAAAAAAAAAAAAAAAAA="))],
    .object [("authreq", .str (lit "h.eyJpYXQiOjEwMH0.s")), ("epk", .str (lit "k"))],
    .status 401]

def aheadReqi : ExtRequestInfo := ⟨lit "h.eyJpYXQiOjEwMH0.s", lit "k"⟩

def aheadPush : Cmd Push := confirmFirePush .standard none (lit "s") none none

/-- The context after the push, at the time 5. -/
def aheadCtx : Ctx := scriptState aheadPush .initial 5 aheadAnswers

theorem aheadPush_refused : scriptResult aheadPush .initial 5 aheadAnswers =
    .ok ⟨.error .authFailed, some aheadReqi⟩ := by
  have hparts : (scriptResult aheadPush .initial 5 aheadAnswers).map (fun p => (p.outcome, p.reqi)) =
      .ok (.error .authFailed, some aheadReqi) := by decide +kernel
  cases h : scriptResult aheadPush .initial 5 aheadAnswers with
  | error rc =>
    rw [h] at hparts
    cases hparts
  | ok p =>
    rw [h] at hparts
    obtain ⟨outcome, reqi⟩ := p
    obtain ⟨rfl, rfl⟩ := Prod.mk.inj (Except.ok.inj hparts)
    rfl

/-- The check-in that the refusal starts, in an environment that answers its dispatches with `last`. -/
def aheadCheck (last : List Answer) : List Event := scriptEvents (recoveryCheckin .standard) aheadCtx 5 last

/-- The context that it leaves. -/
def aheadLost (last : List Answer) : Ctx := scriptState (recoveryCheckin .standard) aheadCtx 5 last

theorem aheadPush_rescue (last : List Answer) (rc : Rc)
    (hfail : scriptResult (recoveryCheckin .standard) aheadCtx 5 last = .error rc) :
    Rescue .standard .confirmBegin (aheadCheck last) .authFailed (some .authFailed) (aheadLost last) := by
  have hmade := script_runs (newConfirm none (lit "s")) .initial 5 []
  have hnew : scriptResult (newConfirm none (lit "s")) .initial 5 [] = .ok ⟨none, lit "s", none, false⟩ := by
    decide +kernel
  have hkept : scriptState (newConfirm none (lit "s")) .initial 5 [] = .initial := by decide +kernel
  rw [hnew, hkept] at hmade
  have hpushed := script_runs aheadPush .initial 5 aheadAnswers
  rw [aheadPush_refused] at hpushed
  have hmeasured := script_runs (authreqDrift aheadReqi.authreq) aheadCtx 5 []
  have hdrift : scriptResult (authreqDrift aheadReqi.authreq) aheadCtx 5 [] = .ok 95 := by decide +kernel
  have hsame : scriptState (authreqDrift aheadReqi.authreq) aheadCtx 5 [] = aheadCtx := by decide +kernel
  rw [hdrift, hsame] at hmeasured
  have hcheck := script_runs (recoveryCheckin .standard) aheadCtx 5 last
  rw [hfail] at hcheck
  exact confirmBegin_rescue hmade hpushed hmeasured hcheck (by decide +kernel) (by decide)

theorem aheadPush_unauthorized : RescueSite.confirmBegin.Kept .authFailed (some .authFailed)
    (aheadLost [.status 401]) :=
  (rescue_keeps_failure_iff (aheadPush_rescue [.status 401] .authFailed (by decide +kernel))).mpr
    fun _ => ⟨⟨401, none⟩, by decide +kernel, rfl⟩

/-- The broker refused with a 401, and a 500 of the device is on record. -/
theorem aheadPush_replaced :
    Rescue .standard .confirmBegin (aheadCheck [.status 500]) .authFailed (some .authFailed)
      (aheadLost [.status 500]) ∧
    (aheadLost [.status 500]).lastError.httpStatus ≠ RescueSite.confirmBegin.status :=
  ⟨aheadPush_rescue [.status 500] .device (by decide +kernel), by decide +kernel⟩

end EncedoHem
