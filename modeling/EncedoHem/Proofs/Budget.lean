import EncedoHem.Lib.Credits
import EncedoHem.Proofs.SessionState
import EncedoHem.Scripted

namespace EncedoHem
open Text Dialogue

/-- Nothing is dispatched. -/
abbrev unsent : Contract Op Ans Ctx := Emits fun e => isSend e = false

theorem unsent_event {e : Event} (h : ∀ scope req, e.op ≠ .send scope req) : isSend e = false := by
  obtain ⟨op, ans⟩ := e
  cases op with
  | send scope req => exact absurd rfl (h scope req)
  | _ => rfl

theorem unsent_timed : Timed unsent := by
  apply emits_timed
  intro e he
  apply unsent_event
  intro scope req hop
  rw [hop] at he
  cases he

namespace Budget
variable {α : Type} {cfg : Config}

theorem mark (m : Mark) : Costs isSend 0 (mark m) := .free (.ask fun _ _ => emits_single rfl) 0

theorem modifyCtx (f : Ctx → Ctx) : Costs isSend 0 (modifyCtx f) := .free (.modify fun _ => emits_nil) 0

theorem ctxFail (rc : Rc) (status : Int) (payload : Option Bytes) (fmt : List Piece) :
    Costs isSend 0 (ctxFail rc status payload fmt : Cmd α) := .free (unsent_timed.ctxFail ..) 0

theorem pure (a : α) (n : Nat) : Costs isSend n (Pure.pure a : Cmd α) := .free (.pure a) n

theorem throw (rc : Rc) (n : Nat) : Costs isSend n (throwRc rc : Cmd α) := .free (.throw rc) n

theorem get : Costs isSend 0 getCtx := .free .get 0

theorem doSend (scope : Option Bytes) (method : Method) (path : Bytes) (jsonBody bearer : Option Bytes)
    (ov : TlsOverride) (fresh : Bool) :
    Costs isSend 1 (doSend cfg scope method path jsonBody bearer ov fresh) :=
  .after (.free (unsent_timed.sleepMs _) 0) fun _ => .ask (Op.send ..)

/-- The recovery is worth a check-in and one more dispatch; an override rules it out. -/
theorem recoverCert {checkin : Cmd Unit} {resend : Cmd Answer} {path : Bytes} {ov : TlsOverride}
    {a : Answer} {n : Nat} (hc : ov = .default → Costs isSend n checkin) (hr : Costs isSend 1 resend) :
    Costs isSend (if ov = .default then n + 1 else 0) (recoverCert cfg checkin resend path ov a) := by
  have hpass : ∀ m, Costs isSend m (Pure.pure a : Cmd Answer) := fun m => pure a m
  have hquit : ∀ (m : Nat) (fmt : List Piece) (rc : Rc), Costs isSend m (do
      record 0 none fmt
      EncedoHem.modifyCtx fun s => s.setTlsExpired true
      throwRc rc : Cmd Answer) := fun m fmt rc =>
    .free (.bind (unsent_timed.record ..) fun _ => .bind (unsent_timed.setError _) fun _ => .throw _) m
  refine .after get fun s => ?_
  cases a with
  | done r => exact hpass _
  | failed why expired detail =>
    cases expired with
    | false => exact hpass _
    | true =>
      refine .ite (fun _ => hpass _) fun hg => ?_
      simp only [not_or, ne_eq, not_not] at hg
      rw [if_pos hg.2.2]
      refine .bind (.attempt (hc hg.2.2)) fun crc => ?_
      cases crc with
      | error rc => exact hquit ..
      | ok u =>
        refine .before hr fun a' => ?_
        split
        · exact .after (modifyCtx _) fun _ => pure _ 0
        · exact hquit ..
        · exact pure _ 0

/-- A request without a scope. -/
theorem requestRawWith {ensure : Bytes → Cmd Bytes} {checkin : Cmd Unit} {method : Method}
    {path : Bytes} {jsonBody : Option Bytes} {ov : TlsOverride} {n : Nat}
    (hc : ov = .default → Costs isSend n checkin) :
    Costs isSend (if ov = .default then n + 2 else 1)
      (requestRawWith cfg ensure checkin method path jsonBody none ov) := by
  refine .ite (fun _ => .mono (ctxFail ..) (Nat.zero_le _)) fun _ => .after (pure _ 0) fun bearer => ?_
  refine .bind_le (doSend ..) (fun a => .before (recoverCert hc (doSend ..)) fun a => ?_) ?_
  · refine .after (.free (unsent_timed.requireDone ..) 0) fun r => .after (pure _ 0) fun r => ?_
    exact .free (unsent_timed.judge ..) 0
  · split <;> omega

theorem checkinRun (why : CheckinReason) : Costs isSend 3 (checkinRun cfg why true) := by
  have hrelax : deviceOverride true ≠ .default := by decide
  have hverify : TlsOverride.verify ≠ .default := by decide
  have hleg : ∀ {method path jsonBody} {ov : TlsOverride}, ov ≠ .default →
      Costs isSend 1 (leg cfg method path jsonBody ov) := by
    intro method path jsonBody ov ho
    exact (requestRawWith (n := 0) fun h => absurd h ho).mono (Nat.le_of_eq (if_neg ho))
  have hlegs : Costs isSend 3 (checkinLegs cfg true) := by
    refine .bind_le (hleg hrelax) (fun _ => .bind (hleg hverify) fun _ => .before (hleg hrelax) fun _ => ?_)
      (Nat.le_refl 3)
    exact .after (.free (unsent_timed.parseBody ..) 0) fun _ => pure _ 0
  refine .after (mark _) fun _ => .after (modifyCtx _) fun _ => ?_
  refine .before (.attempt (.before hlegs fun _ => pure _ 0)) fun r => ?_
  refine .after (modifyCtx _) fun _ => .after (mark _) fun _ => ?_
  split
  · exact pure _ 0
  · exact throw _ 0

theorem requestPlain (method : Method) (path : Bytes) (body : Option Bytes) :
    Costs isSend 5 (requestPlain cfg method path body .default) :=
  .mono (requestRawWith fun _ => checkinRun _) (Nat.le_refl 5)

theorem requestPlainJson (method : Method) (path : Bytes) (body : Option Bytes) :
    Costs isSend 5 (requestPlainJson cfg method path body) :=
  .before (requestPlain ..) fun _ => .free (unsent_timed.parseBody ..) 0

/-- A fetch that leaves the recovery unspent has not paid for it. -/
theorem fetchChallenge : Pays isSend 13 (fetchChallenge cfg false) fun
    | .ok (_, spent) => if spent then 0 else 8
    | .error _ => 0 := by
  refine Pays.bind ((requestPlainJson ..).attempt.pays 8) (fun r => ?_) fun _ => Nat.zero_le _
  refine Pays.bind (get.pays 8) (fun s => ?_) fun _ => Nat.zero_le _
  cases r with
  | ok challenge => exact .pure (Nat.le_refl 8)
  | error rc =>
    refine .ite (fun _ => ?_) fun _ => .pure (Nat.le_refl 8)
    refine Pays.bind ((checkinRun _).attempt.pays 5) (fun crc => ?_) fun _ => Nat.zero_le _
    cases crc with
    | error rc' =>
      refine Pays.bind (get.pays 5) (fun s => ?_) fun _ => Nat.zero_le _
      exact Pays.bind ((ctxFail ..).attempt.pays 5) (fun _ => .pure (Nat.zero_le _)) fun _ => Nat.zero_le _
    | ok u =>
      refine Pays.bind ((requestPlainJson ..).attempt.pays 0) (fun r => ?_) fun _ => Nat.zero_le _
      exact .pure (Nat.le_refl 0)

theorem fetchChallenge_spent : Costs isSend 5 (EncedoHem.fetchChallenge cfg true) := by
  refine .before (.attempt (requestPlainJson ..)) fun r => .after get fun s => ?_
  split
  · exact pure _ 0
  · exact .ite (fun h => absurd rfl h.2.1) fun _ => pure _ 0

theorem redeemEjwt (scope ejwt : Bytes) (now : Int) : Costs isSend 5 (redeemEjwt cfg scope ejwt now) := by
  have hput : ∀ token exp, Keeps unsent (cachePut scope token exp) := by
    intro token exp
    have hcalm : ∀ es, Calm es → ∀ e ∈ es, isSend e = false := fun es h e he =>
      unsent_event fun scope req hop => by have hq := h e he; rw [hop] at hq; cases hq
    exact ⟨fun s => wp_cachePut hcalm hcalm⟩
  refine .after (.free unsent_timed.need 0) fun _ => .before (requestPlainJson ..) fun result => ?_
  split
  · exact ctxFail ..
  · refine .after (.free (unsent_timed.peekClaim ..) 0) fun exp => .after (.free (hput ..) 0) fun put => ?_
    exact .ite (fun _ => .after (modifyCtx _) fun _ => pure _ 0) fun _ => ctxFail ..

theorem answerChallenge (scope : Bytes) (now : Int) (challenge : Json) :
    Costs isSend 5 (answerChallenge cfg scope now challenge) := by
  have hname : Keeps unsent (noteUsername challenge) := by
    unfold noteUsername
    split
    · exact .pure _
    · exact .bind unsent_timed.alloc fun _ => .ite (fun _ => .modify fun _ => emits_nil) fun _ => .pure _
  unfold EncedoHem.answerChallenge
  split
  · refine .after (.free hname 0) fun _ => ?_
    split
    · exact .mono (ctxFail ..) (Nat.zero_le 5)
    · refine .after (.attempt (.free (unsent_timed.deriveEjwt ..) 0)) fun ejwt => ?_
      split
      · exact .mono (ctxFail ..) (Nat.zero_le 5)
      · exact redeemEjwt ..
  · exact .mono (ctxFail ..) (Nat.zero_le 5)

theorem acquireToken (scope : Bytes) (now : Int) : Pays isSend 18 (acquireToken cfg scope now false) fun
    | .ok a => if a.spent then 0 else 8
    | .error _ => 0 := by
  have hinit : Costs isSend 0 globalInit := .free (unsent_timed.ask rfl) 0
  refine Pays.bind (hinit.pays 18) (fun init => ?_) fun _ => Nat.zero_le _
  split
  · exact Pays.bind ((ctxFail ..).attempt.pays 18) (fun r => .pure (by simp)) fun _ => Nat.zero_le _
  · refine Pays.bind (fetchChallenge.frame 5) (fun ⟨r, spent⟩ => ?_) fun _ => Nat.zero_le _
    cases r with
    | error rc => exact .pure (Nat.le_add_right _ 5)
    | ok challenge =>
      have hpost : Costs isSend 5 (EncedoHem.answerChallenge cfg scope now challenge).attempt :=
        (answerChallenge ..).attempt
      refine Pays.bind ((hpost.pays (if spent then 0 else 8)).mono ?_ fun _ => Nat.le_refl _)
        (fun r => .pure (Nat.le_refl _)) fun _ => Nat.zero_le _
      exact Nat.le_of_eq (Nat.add_comm ..)

theorem acquireToken_spent (scope : Bytes) (now : Int) :
    Costs isSend 10 (EncedoHem.acquireToken cfg scope now true) := by
  refine .after (.free (unsent_timed.ask rfl) 0) fun init => ?_
  split
  · exact .after (.attempt (ctxFail ..)) fun _ => pure _ 10
  · refine .bind_le fetchChallenge_spent (m := 5) (fun ⟨r, spent⟩ => ?_) (Nat.le_refl 10)
    dsimp only
    split
    · exact pure _ 5
    · exact .before (.attempt (answerChallenge ..)) fun r => pure _ 0

theorem recoverDrift (scope : Bytes) (a : Acquired) :
    Costs isSend (if a.spent then 0 else 13) (recoverDrift cfg scope a) := by
  refine .after get fun s => ?_
  generalize hn : (if a.spent then 0 else 13) = n
  split
  · refine .ite (fun h => ?_) fun _ => pure _ _
    rw [← hn, if_neg h.2.2.1]
    refine .bind_le (.attempt (checkinRun _)) (m := 10) (fun crc => ?_) (Nat.le_refl 13)
    split
    · refine .after (.free (.ask fun _ _ => emits_single rfl) 0) fun now => ?_
      exact .before (acquireToken_spent ..) fun _ => pure _ 0
    · exact .after get fun s => .mono (.attempt (ctxFail ..)) (Nat.zero_le 10)
  · exact pure _ _

/-- All of an acquisition after its proactive check-in: the run of the flow and its
recovery share one check-in. -/
theorem acquire (scope : Bytes) (now : Int) (failed : Bool) : Costs isSend 23 (do
    let a ← EncedoHem.acquireToken cfg scope now false
    let r ← EncedoHem.recoverDrift cfg scope a
    let token ← liftRc r
    breadcrumb failed
    EncedoHem.mark (.granted scope token none)
    Pure.pure token : Cmd Bytes) := by
  refine Pays.bind ((acquireToken scope now).frame 5) (fun a => ?_) fun _ => Nat.zero_le _
  have hcost : Costs isSend ((if a.spent then 0 else 8) + 5) (EncedoHem.recoverDrift cfg scope a) := by
    refine (recoverDrift scope a).mono ?_
    split <;> omega
  refine Costs.before hcost fun r => .after (.free (Neutral.liftRc r) 0) fun token => ?_
  refine .after (.ite (fun _ => modifyCtx _) fun _ => pure _ 0) fun _ => ?_
  exact .after (mark _) fun _ => pure _ 0

end Budget

/-- The mode of the session stays, and the latch of the proactive check-in is not let down. -/
def modeKept : Contract Op Ans Ctx where
  rel s _ s' := s'.auth.any (·.mobile) = s.auth.any (·.mobile) ∧
    (s.checkinOnLoginDone = true → s'.checkinOnLoginDone = true)
  refl _ := ⟨rfl, id⟩
  trans h h' := ⟨h'.1.trans h.1, fun hs => h'.2 (h.2 hs)⟩

theorem modeKept_modifyAuth {f : Auth → Auth} (h : ∀ a, (f a).mobile = a.mobile) :
    Keeps modeKept (modifyAuth f) := by
  refine .modify fun s => ⟨?_, id⟩
  show (s.auth.map f).any (·.mobile) = s.auth.any (·.mobile)
  cases s.auth with
  | none => rfl
  | some a => exact h a

theorem modeKept_authOnly : AuthOnly modeKept where
  event _ _ := ⟨rfl, id⟩
  still s s' ha _ hl := ⟨by rw [ha], hl⟩

theorem modeKept_engine (cfg : Config) : Engine cfg (fun _ => True) modeKept := by
  refine modeKept_authOnly.engine (fun _ => modeKept_modifyAuth fun _ => rfl) ?_ ?_ ?_
  · intro scope token exp _
    refine ⟨fun s => wp_cachePut (fun _ _ => ⟨rfl, id⟩) fun _ _ => ⟨?_, id⟩⟩
    show (s.auth.map (·.put scope token exp)).any (·.mobile) = s.auth.any (·.mobile)
    cases s.auth with
    | none => rfl
    | some a =>
      show (a.put scope token exp).mobile = a.mobile
      unfold Auth.put
      split <;> rfl
  · exact fun _ _ => modeKept_modifyAuth fun a => by unfold Auth.afterUse; split <;> rfl
  · refine fun _ _ => ⟨fun s => wp_needAuth (fun _ _ => ⟨rfl, id⟩) (fun _ hn _ => ⟨?_, id⟩) fun _ _ _ _ => ⟨rfl, id⟩⟩
    rw [hn]
    rfl

/-- What the proactive check-in may still cost. -/
def Ctx.checkinDue (s : Ctx) (cfg : Config) : Nat :=
  if cfg.checkinOnLogin = true ∧ s.checkinOnLoginDone = false then 3 else 0

theorem checkinDue_mono (cfg : Config) {s s' : Ctx}
    (h : s.checkinOnLoginDone = true → s'.checkinOnLoginDone = true) : s'.checkinDue cfg ≤ s.checkinDue cfg := by
  unfold Ctx.checkinDue
  cases hs : s.checkinOnLoginDone with
  | true => simp [h hs]
  | false => split <;> simp_all

/-- The proactive check-in is paid for once. -/
theorem wp_proactiveCheckin_due (cfg : Config) (s : Ctx) : wp (proactiveCheckin cfg)
    (fun es _ s' => es.countP isSend + s'.checkinDue cfg ≤ s.checkinDue cfg) s := by
  unfold proactiveCheckin
  rw [wp_bind, wp_getCtx]
  dsimp only
  rw [wp_ite]
  split
  · rename_i hg
    rw [wp_bind, wp_modifyCtx, wp_bind, wp_attempt]
    have hkept : Keeps modeKept (checkinRun cfg .proactive true) := modeKept_authOnly.checkinRun .proactive
    have hcosts : Costs isSend 3 (checkinRun cfg .proactive true) := Budget.checkinRun .proactive
    have hkeep := hkept.run { s with checkinOnLoginDone := true }
    have hcost := hcosts.run { s with checkinOnLoginDone := true }
    refine wp_mono (wp_and hkeep hcost) fun es r s' h => ?_
    have hafter : s'.checkinDue cfg = 0 := if_neg fun hd => by simp [h.1.2 rfl] at hd
    have hbefore : s.checkinDue cfg = 3 := if_pos ⟨hg.1, by simpa using hg.2.1⟩
    have hsends := h.2
    dsimp only
    split
    · refine wp_pure.mpr ?_
      simp only [List.nil_append, List.append_nil]
      omega
    · refine wp_pure.mpr ?_
      simp only [List.nil_append, List.append_nil]
      omega
  · exact wp_pure.mpr (Nat.le_of_eq (Nat.zero_add _))

theorem wp_acquirePassphrase_budget (cfg : Config) (scope : Bytes) (now : Int) (s : Ctx) :
    wp (acquirePassphrase cfg scope now)
      (fun es _ s' => es.countP isSend + s'.checkinDue cfg ≤ s.checkinDue cfg + 23) s := by
  have he := modeKept_engine cfg
  unfold acquirePassphrase
  rw [wp_bind, wp_mark]
  refine wp_bind_of (wp_proactiveCheckin_due cfg s) ?_ ?_
  · intro es failed s₁ hdue
    have hkeep : Keeps modeKept (do
        let a ← acquireToken cfg scope now false
        let r ← recoverDrift cfg scope a
        let token ← liftRc r
        breadcrumb failed
        mark (.granted scope token none)
        pure token : Cmd Bytes) :=
      .bind (he.acquireToken trivial ..) fun _ => .bind (he.recoverDrift trivial _) fun _ =>
        .bind (Neutral.liftRc _) fun _ => .bind (he.breadcrumb _) fun _ => .bind (he.mark _) fun _ => .pure _
    refine wp_mono (wp_and ((Budget.acquire scope now failed).run s₁) (hkeep.run s₁)) ?_
    rintro es' r s' ⟨hcost, -, hlatch⟩
    have hless := checkinDue_mono cfg hlatch
    rw [List.countP_append, List.countP_append]
    have hmark : [(⟨.mark .acquire, ()⟩ : Event)].countP isSend = 0 := rfl
    omega
  · intro es rc s₁ hdue
    rw [List.countP_append]
    have hmark : [(⟨.mark .acquire, ()⟩ : Event)].countP isSend = 0 := rfl
    omega

/-- The dispatches of one acquisition in a session that is not mobile. -/
theorem wp_ensureToken_budget (cfg : Config) (scope : Bytes) {s : Ctx} (hm : s.auth.any (·.mobile) = false) :
    wp (ensureToken cfg scope) (fun es _ s' => es.countP isSend + s'.checkinDue cfg ≤
      s.checkinDue cfg + 23 ∧ s'.auth.any (·.mobile) = false) s := by
  have hkept : Keeps modeKept (ensureToken cfg scope) := (modeKept_engine cfg).ensureToken trivial
  have hkeep := hkept.run s
  suffices hsuff : wp (ensureToken cfg scope) (fun es _ s' => es.countP isSend + s'.checkinDue cfg ≤
      s.checkinDue cfg + 23) s by
    refine wp_mono (wp_and hkeep hsuff) fun es r s' h => ⟨h.2, ?_⟩
    rw [h.1.1, hm]
  have hclock : ∀ now : Int, [(⟨.authNow, now⟩ : Event)].countP isSend = 0 := fun _ => rfl
  have hfail : ∀ (now : Int) (fmt : List Piece), wp (ctxFail .authExpired 0 none fmt : Cmd Bytes)
      (fun es' _ s' => ([(⟨.authNow, now⟩ : Event)] ++ es').countP isSend + s'.checkinDue cfg ≤
        s.checkinDue cfg + 23) s := by
    intro now fmt
    refine wp_ctxFail.mpr fun copied => ?_
    show 0 + s.checkinDue cfg ≤ _
    omega
  unfold ensureToken
  rw [wp_bind, wp_authNow]
  intro now
  dsimp only
  rw [wp_bind, wp_getCtx]
  dsimp only
  split
  · rw [wp_bind, wp_mark]
    refine wp_pure.mpr ?_
    show 0 + s.checkinDue cfg ≤ _
    omega
  · split
    · rename_i a ha
      have hmode : a.mobile = false := by
        rw [ha] at hm
        exact hm
      rw [hmode, if_neg Bool.false_ne_true]
      split
      · refine wp_mono (wp_acquirePassphrase_budget cfg scope now s) fun es r s' h => ?_
        rw [List.countP_append, hclock, Nat.zero_add]
        exact h
      · exact hfail now _
    · exact hfail now _

/-- The retry after a 401: a second acquisition and one more dispatch. -/
theorem wp_retryAuth_budget (cfg : Config) (method : Method) (path : Bytes) (body : Option Bytes)
    (scope : Bytes) (ov : TlsOverride) (r : Response) {s : Ctx} (hm : s.auth.any (·.mobile) = false) :
    wp (retryAuth (ensureToken cfg) (fun bearer => doSend cfg (some scope) method path body bearer ov true)
        path (some scope) r)
      (fun es _ _ => es.countP isSend ≤ s.checkinDue cfg + 24) s := by
  unfold retryAuth
  dsimp only
  rw [wp_ite]
  split
  · exact wp_pure.mpr (Nat.zero_le _)
  · have hinvalid : Keeps modeKept (authInvalidate scope) := modeKept_modifyAuth fun _ => rfl
    have hbearer : ∀ token, Costs isSend 0 (makeBearer token) := fun token =>
      .free (.bind unsent_timed.need fun _ => .pure _) 0
    have hinv := (hinvalid.run s)
    unfold authInvalidate modifyAuth at hinv ⊢
    rw [wp_modifyCtx] at hinv
    rw [wp_bind, wp_modifyCtx]
    dsimp only
    have hless := checkinDue_mono cfg hinv.2
    refine wp_bind_of (wp_ensureToken_budget cfg scope (hinv.1.trans hm)) ?_ ?_
    · rintro es token s₁ ⟨hsends, -⟩
      refine wp_mono (Costs.run (k := isSend) (n := 1) ?_ s₁) fun es' _ _ h => ?_
      · refine .after (hbearer token) fun bearer => .before (Budget.doSend ..) fun a => ?_
        cases a with
        | done r' => exact Budget.pure _ 0
        | failed why expired detail => exact Budget.ctxFail ..
      · rw [List.nil_append, List.countP_append]
        omega
    · rintro es rc s₁ ⟨hsends, -⟩
      rw [List.nil_append]
      omega

/-- The dispatches of a request under a scope, besides its first acquisition. -/
theorem wp_exchange_budget (cfg : Config) (method : Method) (path : Bytes) (body : Option Bytes)
    (scope : Bytes) (bearer : Option Bytes) (ov : TlsOverride) {s : Ctx} (hm : s.auth.any (·.mobile) = false) :
    wp (exchangeWith cfg (ensureToken cfg) (recoveryCheckin cfg) method path body (some scope) ov bearer)
      (fun es _ _ => es.countP isSend ≤ s.checkinDue cfg + 29) s := by
  have he := (modeKept_authOnly).timed
  have hsend : ∀ fresh, Keeps modeKept (doSend cfg (some scope) method path body bearer ov fresh) :=
    fun fresh => he.doSend fun _ _ => ⟨rfl, id⟩
  have hkeep : Keeps modeKept (do
      let a ← doSend cfg (some scope) method path body bearer ov false
      let a ← recoverCert cfg (recoveryCheckin cfg)
        (doSend cfg (some scope) method path body bearer ov true) path ov a
      requireDone path a) :=
    .bind (hsend false) fun a => .bind (he.recoverCert (fun _ => ⟨rfl, id⟩)
      (fun _ => modeKept_authOnly.checkinRun _) (hsend true)) fun a => he.requireDone ..
  have hcost : Costs isSend 5 (do
      let a ← doSend cfg (some scope) method path body bearer ov false
      let a ← recoverCert cfg (recoveryCheckin cfg)
        (doSend cfg (some scope) method path body bearer ov true) path ov a
      requireDone path a) := by
    refine .bind_le (Budget.doSend ..) (m := 4) (fun a => ?_) (Nat.le_refl 5)
    refine .before (.mono (Budget.recoverCert (n := 3) (fun _ => Budget.checkinRun _) (Budget.doSend ..)) ?_) fun a => ?_
    · split <;> omega
    · exact .free (unsent_timed.requireDone ..) 0
  have hassoc : exchangeWith cfg (ensureToken cfg) (recoveryCheckin cfg) method path body (some scope) ov bearer =
      (do
        let a ← doSend cfg (some scope) method path body bearer ov false
        let a ← recoverCert cfg (recoveryCheckin cfg)
          (doSend cfg (some scope) method path body bearer ov true) path ov a
        requireDone path a) >>= fun r =>
      (do
        let r ← retryAuth (ensureToken cfg) (fun bearer => doSend cfg (some scope) method path body bearer ov true)
          path (some scope) r
        judge path r) := by
    simp only [Cmd.bind_assoc]
    rfl
  rw [hassoc]
  refine wp_bind_of (wp_and (hcost.run s) (hkeep.run s)) ?_ ?_
  · rintro es r s₁ ⟨hfive, hmode, hlatch⟩
    have hless := checkinDue_mono cfg hlatch
    have hjudge : ∀ r, Costs isSend 0 (judge path r) := fun r => .free (unsent_timed.judge ..) 0
    refine wp_bind_of (wp_retryAuth_budget cfg method path body scope ov r (hmode.trans hm)) ?_ ?_
    · intro es' r' s₂ hretry
      refine wp_mono ((hjudge r').run s₂) fun es'' _ _ h => ?_
      rw [List.countP_append, List.countP_append]
      omega
    · intro es' rc s₂ hretry
      rw [List.countP_append]
      omega
  · rintro es rc s₁ ⟨hfive, -⟩
    omega

/-- Without a scope a request is the same request whatever engine stands ready for one. -/
theorem requestPlain_eq (cfg : Config) (method : Method) (path : Bytes) (body : Option Bytes)
    (ov : TlsOverride) : requestPlain cfg method path body ov = requestRaw cfg method path body none ov := rfl

/-- An override rules recovery out, so that a leg is the same request whatever check-in
stands ready for one. -/
theorem leg_eq (cfg : Config) (method : Method) (path : Bytes) (body : Option Bytes) {ov : TlsOverride}
    (ho : ov ≠ .default) : leg cfg method path body ov = requestRaw cfg method path body none ov := by
  have hpass : ∀ (checkin : Cmd Unit) (resend : Cmd Answer) (a : Answer),
      recoverCert cfg checkin resend path ov a = getCtx >>= fun _ => pure a := by
    intro checkin resend a
    unfold recoverCert
    congr 1
    funext s
    split
    · exact if_pos (.inr (.inr ho))
    · rfl
  unfold leg requestRaw requestRawWith exchangeWith
  simp only [hpass]
  rfl

/-- The calls that the flows make of one another are the calls themselves, and however the
device, the cloud and the clocks answer, a call ends after so many dispatches: a request without a scope after 5, an acquisition after 26, after 23 where the
proactive check-in is behind it, and a request under a scope after 55. -/
theorem dispatches_bounded (cfg : Config) :
    (∀ method path body ov, requestPlain cfg method path body ov = requestRaw cfg method path body none ov ∧
      (ov ≠ .default → leg cfg method path body ov = requestRaw cfg method path body none ov)) ∧
    (∀ method path body ov s, wp (requestRaw cfg method path body none ov)
      (fun es _ _ => es.countP isSend ≤ 5) s) ∧
    ∀ s : Ctx, s.auth.any (·.mobile) = false →
      (∀ scope, wp (ensureToken cfg scope) (fun es _ _ => es.countP isSend ≤ 26) s) ∧
      (∀ scope, s.checkinOnLoginDone = true →
        wp (ensureToken cfg scope) (fun es _ _ => es.countP isSend ≤ 23) s) ∧
      ∀ method path body scope ov, wp (requestRaw cfg method path body (some scope) ov)
        (fun es _ _ => es.countP isSend ≤ 55) s := by
  refine ⟨fun method path body ov => ⟨requestPlain_eq .., leg_eq cfg method path body⟩, ?_, ?_⟩
  · intro method path body ov s
    have hcost : Costs isSend (if ov = .default then 3 + 2 else 1) (requestRaw cfg method path body none ov) :=
      Budget.requestRawWith fun _ => Budget.checkinRun _
    exact ((hcost.mono (by split <;> omega) : Costs isSend 5 _)).run s
  · intro s hm
    have hdue : s.checkinDue cfg ≤ 3 := by
      unfold Ctx.checkinDue
      split <;> omega
    refine ⟨fun scope => ?_, fun scope hl => ?_, fun method path body scope ov => ?_⟩
    · refine wp_mono (wp_ensureToken_budget cfg scope hm) fun es _ s' h => ?_
      have := h.1
      omega
    · refine wp_mono (wp_ensureToken_budget cfg scope hm) fun es _ s' h => ?_
      have hzero : s.checkinDue cfg = 0 := if_neg fun hd => by simp [hl] at hd
      have := h.1
      omega
    · unfold requestRaw requestRawWith
      rw [wp_ite]
      split
      · exact wp_mono ((Budget.ctxFail ..).run s) fun _ _ _ h => Nat.le_trans h (Nat.zero_le 55)
      · have hbearer : wp (acquireBearer (ensureToken cfg) (some scope)) (fun es _ s' =>
            es.countP isSend + s'.checkinDue cfg ≤ s.checkinDue cfg + 23 ∧
              s'.auth.any (·.mobile) = false) s := by
          refine wp_bind_of (wp_ensureToken_budget cfg scope hm) ?_ fun es rc s₁ h => h
          rintro es token s₁ ⟨hsends, hmode⟩
          have hmake : Costs isSend 0 (do
              let bearer ← makeBearer token
              pure (some bearer)) := .after (.free (.bind unsent_timed.need fun _ => .pure _) 0) fun _ => Budget.pure _ 0
          have hkeep : Keeps modeKept (do
              let bearer ← makeBearer token
              pure (some bearer)) := .bind (.bind modeKept_authOnly.timed.need fun _ => .pure _) fun _ => .pure _
          refine wp_mono (wp_and (hmake.run s₁) (hkeep.run s₁)) fun es' _ s₂ h => ?_
          have hless := checkinDue_mono cfg h.2.2
          have hfree := h.1
          rw [List.countP_append]
          exact ⟨by omega, h.2.1.trans hmode⟩
        refine wp_bind_of hbearer ?_ ?_
        · rintro es bearer s₁ ⟨hsends, hmode⟩
          refine wp_mono (wp_exchange_budget cfg method path body scope bearer ov hmode) fun es' _ _ h => ?_
          rw [List.countP_append]
          omega
        · rintro es rc s₁ ⟨hsends, -⟩
          omega

theorem lost_login_bounded :
    (scriptEvents (ensureToken .standard (lit "a")) Ctx.loggedIn 5 []).countP isSend ≤ 26 :=
  ((dispatches_bounded .standard).2.2 Ctx.loggedIn rfl).1 (lit "a") _ _ _ (script_runs _ _ 5 [])

end EncedoHem
