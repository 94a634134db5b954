import EncedoHem.Proofs.CheckinCause
import EncedoHem.Proofs.SessionState
import EncedoHem.Scripted
import EncedoHem.System

namespace EncedoHem
open Text Dialogue

/-- The broker's event for an authreq, as it is posted. -/
def eventRequest (cfg : Config) (url : Option Bytes) (reqi : ExtRequestInfo) : Request :=
  buildRequest cfg .post (url.getD defaultNotifyUrl ++ lit "/event/new")
    (some (printValue (.obj [(lit "authreq", .str reqi.authreq), (lit "epk", .str reqi.epk)]))) none .verify false

/-- The broker's last word was a 401 to the event. -/
def Refused (cfg : Config) (url : Option Bytes) (reqi : ExtRequestInfo) (es : List Event) : Prop :=
  ∃ resp, lastDone es = some (eventRequest cfg url reqi, resp) ∧ resp.status = 401

theorem Refused.append {cfg : Config} {url : Option Bytes} {reqi : ExtRequestInfo} {es es' : List Event}
    (h : Refused cfg url reqi es') : Refused cfg url reqi (es ++ es') := by
  obtain ⟨resp, hl, hs⟩ := h
  exact ⟨resp, lastDone_append hl, hs⟩

namespace Lawful
variable {cfg : Config}

/-- An event that fails with a 401 on record was refused by the broker itself. -/
theorem notifyEventNew_refused (url : Option Bytes) (reqi : ExtRequestInfo) (s : Ctx) :
    wp (notifyEventNew cfg url reqi.authreq reqi.epk) (fun es r s' => ∀ rc, r = .error rc →
      s'.lastError.httpStatus = 401 → Refused cfg url reqi es) s := by
  have hother : ∀ {α : Type} {status : Int} {rc : Rc} {payload : Option Bytes} {fmt : List Piece} {es : List Event}
      {s : Ctx}, status ≠ 401 → wp (ctxFail rc status payload fmt : Cmd α) (fun es' r s' => ∀ rc, r = .error rc →
        s'.lastError.httpStatus = 401 → Refused cfg url reqi (es ++ es')) s :=
    fun hne => wp_ctxFail_of fun _ d _ hd _ rc _ h401 => absurd (hd.symm.trans h401) hne
  unfold notifyEventNew
  rw [wp_bind, wp_clearError]
  simp only [List.nil_append, printObject, Cmd.bind_assoc, Cmd.pure_bind]
  rw [wp_bind]
  refine wp_need_of (fun before _ => ?_) fun es d _ hd rc _ h401 => absurd (hd.status.symm.trans h401) (by decide)
  unfold notifySendJson
  simp only [Cmd.bind_assoc]
  refine wp_bind_of (wp_notifySend cfg .post url _ (lit "/event/new") _) ?_ ?_
  · rintro es ⟨status, body⟩ s₁ hb
    cases hb with
    | good before' r hc h2 =>
      have hne : r.status ≠ 401 := by omega
      dsimp only
      cases r.body with
      | none =>
        rw [Option.map_none]
        dsimp only
        rw [ctxFail_bind]
        simp only [← List.append_assoc]
        exact hother hne
      | some b =>
        rw [Option.map_some]
        dsimp only
        unfold parseJson
        simp only [Cmd.bind_assoc, Cmd.pure_bind]
        rw [wp_bind, wp_alloc]
        intro ok
        dsimp only
        split
        · rw [ctxFail_bind]
          simp only [← List.append_assoc]
          exact hother hne
        · rw [Cmd.pure_bind]
          unfold brokerStr
          split
          · simp only [← List.append_assoc]
            exact hother (by decide)
          · rw [wp_bind]
            refine wp_need_of (fun _ _ => ?_) fun es d _ hd rc _ h401 =>
              absurd (hd.status.symm.trans h401) (by decide)
            exact wp_pure.mpr fun rc hrc => by cases hrc
  · rintro es rc s₁ hb rc' hrc h401
    cases hb with
    | bad before' after r d hc ha h2 hd =>
      refine Refused.append ⟨r, ?_, hd.symm.trans h401⟩
      rw [ha.lastDone]
      exact lastDone_append rfl
    | lost before' after why expired detail d hc ha hd => exact absurd (hd.symm.trans h401) (by decide)
    | unsent es rc d hc hr hd => exact absurd (hd.symm.trans h401) (by decide)

/-- The same for a whole push. -/
theorem confirmFirePush_refused (url : Option Bytes) (scope : Bytes) (ctxStr note : Option Bytes) (s : Ctx) :
    wp (confirmFirePush cfg url scope ctxStr note) (fun es r s' => ∀ p reqi rc, r = .ok p → p.reqi = some reqi →
      p.outcome = .error rc → s'.lastError.httpStatus = 401 → Refused cfg url reqi es) s := by
  have hnone : ∀ {rc : Rc} {es : List Event} {s : Ctx}, wp (Pure.pure ⟨.error rc, none⟩ : Cmd Push)
      (fun es' r s' => ∀ p reqi rc, r = .ok p → p.reqi = some reqi → p.outcome = .error rc →
        s'.lastError.httpStatus = 401 → Refused cfg url reqi (es ++ es')) s := by
    intro rc es s
    refine wp_pure.mpr fun p reqi rc hp hr => ?_
    rw [← Except.ok.inj hp] at hr
    cases hr
  unfold confirmFirePush
  rw [wp_bind, wp_attempt]
  intro es session s₁ _
  cases session with
  | error rc => exact hnone
  | ok epk =>
    dsimp only
    rw [wp_bind, wp_attempt]
    intro es' req s₂ _
    cases req with
    | error rc =>
      dsimp only
      simp only [← List.append_assoc]
      exact hnone
    | ok reqi =>
      dsimp only
      rw [wp_bind, wp_attempt]
      refine wp_mono (notifyEventNew_refused url reqi s₂) fun es'' event s₃ hev => ?_
      refine wp_pure.mpr fun p reqi' rc hp hr ho h401 => ?_
      obtain rfl := Except.ok.inj hp
      obtain rfl := Option.some.inj hr
      rw [List.append_nil]
      exact (hev rc ho h401).append.append

/-- How far the authreq's clock is off is read from it and the wall clock, without a trace outside. -/
theorem wp_authreqDrift (authreq : Bytes) (s : Ctx) :
    wp (authreqDrift authreq) (fun es r s' => (s' = s ∧ ∀ e ∈ es, Event.loud e = none) ∧ ∃ d, r = .ok d ∧
      (brokerDriftEvident d = true → ∃ iat now, claimOf authreq (lit "iat") = some iat ∧
        latest Event.wallReading es = some now ∧ d = iat - now)) s := by
  unfold authreqDrift peekJwtIat
  rw [wp_bind]
  refine wp_peekClaim_of fun es v hc hv => ?_
  have hquiet : ∀ e ∈ es, Event.loud e = none := fun e he => Event.loud_of_quiet (hc e he)
  cases v with
  | none =>
    refine wp_pure.mpr ⟨⟨rfl, ?_⟩, 0, rfl, fun h => absurd h (by decide)⟩
    rw [List.append_nil]
    exact hquiet
  | some iat =>
    simp only [wp_bind, wp_wallTime, wp_pure, List.append_nil]
    intro now
    refine ⟨⟨trivial, fun e he => ?_⟩, _, rfl, fun _ => ⟨iat, now, ?_, latest_append_some rfl, rfl⟩⟩
    · rcases List.mem_append.mp he with he | he
      · exact hquiet e he
      · rw [List.mem_singleton.mp he]
        rfl
    · rcases hv with hv | hv
      · cases hv
      · exact hv.symm

/-- A push is recovered only where the broker refused it and its clock is off. -/
theorem recoverPush {s₀ s : Ctx} {h : List Event} (hh : (justified cfg).rel s₀ h s) {url : Option Bytes} {scope : Bytes}
    {ctxStr note : Option Bytes} {push : Push} (hp : ∀ reqi rc, push.reqi = some reqi → push.outcome = .error rc →
      s.lastError.httpStatus = 401 → Refused cfg url reqi h) :
    wp (recoverPush cfg url scope ctxStr note push) (fun es _ s' => (justified cfg).rel s₀ (h ++ es) s') s := by
  have hpass : wp (Pure.pure push.outcome : Cmd (Except Rc Bytes))
      (fun es _ s' => (justified cfg).rel s₀ (h ++ es) s') s := (Keeps.pure _).after hh
  unfold EncedoHem.recoverPush
  rw [wp_bind, wp_getCtx]
  simp only [List.nil_append]
  split
  · rename_i rc reqi ho hr
    rw [wp_ite]
    split
    · rename_i hg
      obtain ⟨resp, hl, h401⟩ := hp reqi rc hr ho hg.1
      rw [wp_bind]
      refine wp_mono (wp_and (wp_authreqDrift reqi.authreq s) ((timed.authreqDrift _).after hh)) ?_
      rintro es r s₁ ⟨⟨⟨rfl, hquiet⟩, d, rfl, hd⟩, hk⟩
      dsimp only
      rw [wp_ite]
      simp only [← List.append_assoc]
      split
      · rename_i hdrift
        obtain ⟨iat, now, hclaim, hread, rfl⟩ := hd hdrift
        have hlast : lastDone (h ++ es) = some (eventRequest cfg url reqi, resp) := by
          unfold lastDone at *
          rw [latest_append_none hquiet]
          exact hl
        have hfar : 2 < iat - now ∨ iat - now < -15 := by
          simp only [brokerDriftEvident, Bool.or_eq_true, decide_eq_true_eq] at hdrift
          exact hdrift
        have hc : Cause cfg s₀ (h ++ es) .recovery := .brokerDrift _ resp _ reqi.authreq reqi.epk iat now
          (by simpa using hg.2.1) hlast h401 ⟨rfl, rfl⟩ rfl hclaim (latest_append_some hread) hfar
        rw [wp_bind, wp_attempt]
        refine wp_mono (recovery_after hk hc) fun check crc s₂ hk' => ?_
        simp only [← List.append_assoc]
        cases crc with
        | ok u => exact Keeps.after (.bind (machinery.pushing.confirmFirePush ..) fun _ => .pure _) hk'
        | error e => exact Keeps.after (.pure _) hk'
      · exact Keeps.after (.pure _) hk
    · exact hpass
  · exact hpass

theorem confirmBegin (url : Option Bytes) (scope : Bytes) (ctxStr note : Option Bytes) :
    Keeps (justified cfg) (confirmBegin cfg url scope ctxStr note) := by
  refine .bind (neutral.newConfirm ..) fun c => ?_
  rw [← Cmd.bind_assoc]
  refine .bind ⟨fun s => ?_⟩ fun outcome => ?_
  · rw [wp_bind]
    refine wp_mono (wp_and ((machinery.pushing.confirmFirePush url scope ctxStr note).run s)
      (confirmFirePush_refused url scope ctxStr note s)) fun es r s₁ ⟨hk, hr⟩ => ?_
    cases r with
    | error rc => exact hk
    | ok push => exact recoverPush hk fun reqi rc => hr push reqi rc rfl
  · split
    · exact .throw _
    · exact .bind (.ite (fun _ => neutral.ask rfl) fun _ => .pure _) fun _ => .pure _

theorem put (scope token : Bytes) (exp : Int) : Keeps (justified cfg) (cachePut scope token exp) := by
  refine ⟨fun s => wp_cachePut (fun es hc hs => .calm hc hs rfl) fun es hc hs => .calm hc hs rfl⟩

theorem needAuth : Keeps (justified cfg) needAuth := by
  refine ⟨fun s => wp_needAuth (fun a _ hs => .calm .nil hs rfl) (fun es _ hc hs => .calm hc hs rfl)
    fun es d _ hc hs => .calm hc hs rfl⟩

/-- The end of a call that starts an acquisition. -/
theorem acquire {s s' : Ctx} (hi : s'.inCheckin = false) (hk : s.checkinOnLoginDone = true → s'.checkinOnLoginDone = true)
    (hl : cfg.checkinOnLogin = true → s'.checkinOnLoginDone = true) :
    Justified cfg s [⟨.mark .acquire, ()⟩] s' where
  guard := hi
  paired := rfl
  kept := hk
  latched ho _ _ _ := hl ho
  causes pre why post he _ := by
    have hm : (⟨.mark (.checkin why), ()⟩ : Event) ∈ [(⟨.mark .acquire, ()⟩ : Event)] := by
      rw [he]
      simp
    rw [List.mem_singleton] at hm
    cases hm

/-- The start of an acquisition, with the check-in that the first of a context may begin with. -/
theorem proactiveCheckin : Keeps (justified cfg) (EncedoHem.mark .acquire >>= fun _ => proactiveCheckin cfg) := by
  refine ⟨fun s => ?_⟩
  unfold EncedoHem.proactiveCheckin
  rw [wp_bind, wp_mark]
  dsimp only
  rw [wp_bind, wp_getCtx]
  dsimp only
  rw [wp_ite]
  split
  · rename_i hg
    have hfirst : s.checkinOnLoginDone = false := by simpa using hg.2.1
    rw [wp_bind, wp_modifyCtx]
    dsimp only
    rw [wp_bind, wp_attempt]
    refine wp_mono (wp_checkinRun cfg .proactive _) fun check r s₁ hc => ?_
    have hrel : (justified cfg).rel s ([⟨.mark .acquire, ()⟩] ++ check) s₁ := by
      intro hs
      have hstart : Justified cfg s [⟨.mark .acquire, ()⟩] { s with checkinOnLoginDone := true } :=
        acquire hs (fun _ => rfl) fun _ => rfl
      exact hstart.check (fun _ => .proactive hg.1 hfirst rfl rfl) hc.events hc.frame
    simp only [List.nil_append, ← List.append_assoc]
    cases r with
    | ok u => exact Keeps.after (.pure _) hrel
    | error rc => exact Keeps.after (.pure _) hrel
  · rename_i hg
    refine wp_pure.mpr fun hs => ?_
    simp only [List.append_nil]
    refine acquire hs id fun ho => ?_
    by_contra hd
    exact hg ⟨ho, by simpa using hd, by simpa using hs⟩

/-- A challenge that is handed out is the last one that was answered. -/
def Challenged (es : List Event) (challenge : Json) : Prop :=
  ∃ body, latest Event.challenge es = some body ∧ jsonParse (cstr body) = some challenge

theorem Challenged.append {es es' : List Event} {challenge : Json} (h : Challenged es' challenge) :
    Challenged (es ++ es') challenge := by
  obtain ⟨body, hl, hp⟩ := h
  exact ⟨body, latest_append_some hl, hp⟩

theorem challenged {s s' : Ctx} {es : List Event} {challenge : Json}
    (h : AskedJson cfg .get authTokenPath none s es (.ok challenge) s') : Challenged es challenge := by
  obtain ⟨fresh, r, b, hl, hf, hb, hp⟩ := h.answered
  refine ⟨b, latest_of_latest Event.loud_self (fun e he => ?_) (lastDone_eq.mp hl) ?_, hp⟩
  · obtain ⟨op, ans⟩ := e
    cases op with
    | send scope req => cases he
    | _ => rfl
  · exact (if_pos ⟨rfl, rfl, rfl, hf⟩).trans hb

/-- The fetch of a challenge. -/
theorem fetchChallenge (spent : Bool) (s : Ctx) : wp (fetchChallenge cfg spent) (fun es r s' =>
    (justified cfg).rel s es s' ∧ ∀ challenge sp, r = .ok (.ok challenge, sp) → Challenged es challenge) s := by
  unfold EncedoHem.fetchChallenge
  rw [wp_bind, wp_attempt]
  refine wp_mono (wp_requestPlainJson cfg .get authTokenPath none s) fun es r s₁ ha => ?_
  have hj : (justified cfg).rel s es s₁ := ha.justified
  dsimp only
  rw [wp_bind, wp_getCtx]
  simp only [List.nil_append]
  cases r with
  | ok challenge =>
    refine wp_pure.mpr ⟨by simpa using hj, fun c sp hc => ?_⟩
    obtain ⟨h, -⟩ := Prod.mk.inj (Except.ok.inj hc)
    rw [List.append_nil, ← Except.ok.inj h]
    exact challenged ha
  | error rc =>
    dsimp only
    rw [wp_ite]
    split
    · rename_i hg
      have hc : Cause cfg s es .recovery :=
        forbidden_cause ha hg.1 (by simpa using hg.2.2.1) fun _ => .inl ⟨rfl, rfl⟩
      rw [wp_bind, wp_attempt]
      refine wp_mono (recovery_after hj hc) fun es' crc s₂ hk => ?_
      cases crc with
      | error e =>
        simp only [wp_bind, wp_getCtx, wp_attempt, wp_ctxFail, wp_pure]
        intro copied
        refine ⟨?_, fun c sp hc => by cases hc⟩
        simp only [recordEvents, List.append_nil]
        rw [← List.append_nil (es ++ es')]
        exact (justified cfg).trans hk (neutral.error s₂ _)
      | ok u =>
        simp only [wp_bind, wp_attempt]
        refine wp_mono (wp_requestPlainJson cfg .get authTokenPath none s₂) fun es'' r' s₃ ha' => ?_
        refine wp_pure.mpr ⟨?_, fun c sp hc => ?_⟩
        · have := (justified cfg).trans hk ha'.justified
          simpa using this
        · obtain ⟨h, -⟩ := Prod.mk.inj (Except.ok.inj hc)
          subst h
          simpa using (challenged ha').append.append
    · exact wp_pure.mpr ⟨by simpa using hj, fun c sp hc => by cases hc⟩

/-- The last dispatch was the login post, answered with a 401. -/
def PostRefused (es : List Event) : Prop :=
  ∃ req resp, lastDone es = some (req, resp) ∧ resp.status = 401 ∧ req.method = .post ∧ req.path = authTokenPath

/-- Redeeming a login token fails as unauthorised, with a 401 on record, only where its post did. -/
theorem redeemEjwt_refused (scope ejwt : Bytes) (now : Int) (s : Ctx) : wp (redeemEjwt cfg scope ejwt now)
    (fun es r s' => r = .error .authFailed → s'.lastError.httpStatus = 401 → PostRefused es) s := by
  unfold redeemEjwt
  rw [wp_bind]
  refine wp_need_of (fun before _ => ?_) fun es d _ _ hr => by cases hr
  dsimp only
  refine wp_bind_of (wp_requestPlainJson cfg .post authTokenPath _ s) ?_ ?_
  · intro es result s₁ _
    have hfail : ∀ {rc : Rc} {status : Int} {fmt : List Piece}, rc ≠ .authFailed →
        Throws (ctxFail rc status none fmt : Cmd Bytes) (· ≠ .authFailed) :=
      fun hne => ⟨fun _ => wp_ctxFail_of fun _ _ _ _ _ _ he => Except.error.inj he ▸ hne⟩
    refine wp_mono ((?_ : Throws _ (· ≠ .authFailed)).run s₁) fun _ r _ hr hauth => absurd rfl (hr _ hauth)
    split
    · exact hfail (by decide)
    · refine .bind ⟨fun _ => wp_peekClaim_of fun _ _ _ _ _ he => by cases he⟩ fun exp => ?_
      refine .bind ⟨fun _ => wp_cachePut (fun _ _ _ he => by cases he) fun _ _ _ he => by cases he⟩ fun put => ?_
      exact .ite (fun _ => .bind (.modify _) fun _ => .pure _) fun _ => hfail (by decide)
  · intro es rc s₁ ha hr h401
    obtain ⟨fresh, resp, hl, hst, -⟩ := ha.blame (by omega)
    exact ⟨_, resp, lastDone_append hl, hst.trans h401, rfl, rfl⟩

theorem PostRefused.append {es es' : List Event} (h : PostRefused es') : PostRefused (es ++ es') := by
  obtain ⟨req, resp, hl, h⟩ := h
  exact ⟨req, resp, lastDone_append hl, h⟩

theorem answerChallenge_refused (scope : Bytes) (now : Int) (challenge : Json) (s : Ctx) :
    wp (answerChallenge cfg scope now challenge) (fun es r s' => r = .error .authFailed →
      s'.lastError.httpStatus = 401 → PostRefused es) s := by
  have hmalformed : ∀ {fmt : List Piece} {es : List Event} {s : Ctx}, wp (ctxFail .protocol 0 none fmt : Cmd Bytes)
      (fun es' r s' => r = .error .authFailed → s'.lastError.httpStatus = 401 → PostRefused (es ++ es')) s :=
    wp_ctxFail_of fun _ _ _ _ _ hr => by cases hr
  have hnote : Throws (noteUsername challenge) (fun _ => False) := by
    unfold noteUsername
    split
    · exact .pure _
    · exact .bind (.ask Op.alloc) fun _ => .ite (fun _ => .modify _) fun _ => .pure _
  unfold answerChallenge
  split
  · rw [wp_bind]
    intro es r s₁ hn
    cases r with
    | error rc => exact absurd rfl (hnote.run s es _ s₁ hn rc)
    | ok u =>
      dsimp only
      split
      · exact hmalformed
      · rw [wp_bind, wp_attempt]
        intro es' r' s₂ _
        cases r' with
        | error rc =>
          dsimp only
          simp only [← List.append_assoc]
          exact hmalformed
        | ok ejwt =>
          refine wp_mono (redeemEjwt_refused scope ejwt now s₂) fun es'' r s' h hr hs => ?_
          exact (h hr hs).append.append
  · exact @hmalformed _ [] _

section
variable {P : Event → Prop} (hn : Neutral (Emits P)) (hm : ∀ m, P ⟨.mark m, ()⟩) (hleg : ∀ e, LegEvent e → P e)
include hm hleg

theorem emits_checkin (why : CheckinReason) : Keeps (Emits P) (checkinRun cfg why true) := by
  refine ⟨fun s => wp_mono (wp_checkinRun cfg why s) fun es r s' hc e he => ?_⟩
  obtain ⟨inner, rfl, hi⟩ := hc.events
  rcases List.mem_cons.mp he with rfl | he
  · exact hm _
  · rcases List.mem_append.mp he with he | he
    · exact hleg e (hi e he)
    · rw [List.mem_singleton.mp he]
      exact hm _

include hn

theorem emits_requestPlainJson {method : Method} {path : Bytes} {body : Option Bytes}
    (hs : ∀ fresh a, P ⟨.send none (buildRequest cfg method path body none .default fresh), a⟩) :
    Keeps (Emits P) (EncedoHem.requestPlainJson cfg method path body) :=
  .bind (hn.requestRawWith_plain (fun _ => emits_nil) (fun _ => emits_checkin hm hleg _)
    fun _ fresh a => emits_single (hs fresh a)) fun _ => hn.parseBody ..

omit hm hleg in
theorem calm_emits {es : List Event} (hc : Calm es) : ∀ e ∈ es, P e :=
  fun e he => hn.quiet .initial e (hc e he) e List.mem_cons_self

theorem emits_redeemEjwt {scope ejwt : Bytes} {now : Int}
    (hs : ∀ body fresh a, P ⟨.send none (buildRequest cfg .post authTokenPath body none .default fresh), a⟩) :
    Keeps (Emits P) (redeemEjwt cfg scope ejwt now) := by
  have hput : ∀ token exp, Keeps (Emits P) (cachePut scope token exp) := fun token exp =>
    ⟨fun s => wp_cachePut (fun es hc => calm_emits hn hc) fun es hc => calm_emits hn hc⟩
  refine .bind hn.need fun _ => .bind (emits_requestPlainJson hn hm hleg (hs _)) fun result => ?_
  split
  · exact hn.ctxFail ..
  · refine .bind (hn.peekClaim ..) fun exp => .bind (hput ..) fun put => ?_
    exact .ite (fun _ => .bind (.modify fun _ => emits_nil) fun _ => .pure _) fun _ => hn.outOfMemory

end

/-- No reading of the login clock. -/
def Unread (e : Event) : Prop := e.authReading = none

/-- No challenge that was answered. -/
def Unchallenged (e : Event) : Prop := e.challenge = none

theorem unread_leg {e : Event} (h : LegEvent e) : Unread e := by
  obtain ⟨op, ans⟩ := e
  cases op with
  | authNow => cases h
  | _ => rfl

theorem unchallenged_leg {e : Event} (h : LegEvent e) : Unchallenged e := by
  obtain ⟨op, ans⟩ := e
  cases op with
  | send scope req =>
    obtain ⟨rfl, ho⟩ := h
    cases ans with
    | done r => exact if_neg fun hc => ho hc.2.2.1
    | failed why expired detail => rfl
  | _ => rfl

theorem unread : Neutral (Emits Unread) := emits_neutral fun ⟨op, ans⟩ he => by
  cases op with
  | authNow => cases he
  | _ => rfl

theorem unchallenged : Neutral (Emits Unchallenged) := emits_neutral fun ⟨op, ans⟩ he => by
  cases op with
  | send scope req => cases he
  | _ => rfl

theorem unread_acquireToken (scope : Bytes) (now : Int) (spent : Bool) :
    Keeps (Emits Unread) (acquireToken cfg scope now spent) :=
  have hm : ∀ m, Unread ⟨.mark m, ()⟩ := fun _ => rfl
  have hleg : ∀ e, LegEvent e → Unread e := fun _ h => unread_leg h
  LoggingIn.acquireToken (P := fun _ => True)
    { unread with
      recovery := emits_checkin hm hleg _
      challenge := emits_requestPlainJson unread hm hleg fun _ _ => rfl
      username := fun _ => .modify fun _ => emits_nil
      redeem := fun _ _ _ _ => emits_redeemEjwt unread hm hleg fun _ _ _ => rfl } trivial now spent

theorem unchallenged_answerChallenge (scope : Bytes) (now : Int) (challenge : Json) :
    Keeps (Emits Unchallenged) (answerChallenge cfg scope now challenge) := by
  refine unchallenged.answerChallenge (fun _ => .modify fun _ => emits_nil) (fun ejwt => ?_) challenge
  refine emits_redeemEjwt unchallenged (fun _ => rfl) (fun _ h => unchallenged_leg h) fun body fresh a => ?_
  cases a with
  | done r => simp [Unchallenged, Event.challenge, buildRequest]
  | failed why expired detail => rfl

/-- What a run of the login flow leaves when it shows drift and its post was refused. -/
def DriftRefused (now : Int) (es : List Event) : Prop :=
  PostRefused es ∧ ∃ challenge exp, Challenged es challenge ∧ challenge.getInt64 (lit "exp") = some exp ∧
    (60 < exp - 60 - now ∨ exp - 60 - now < -60)

theorem drift_evident {challenge : Json} {now : Int} (h : challengeDriftEvident challenge now = true) :
    ∃ exp, challenge.getInt64 (lit "exp") = some exp ∧ (60 < exp - 60 - now ∨ exp - 60 - now < -60) := by
  unfold challengeDriftEvident at h
  split at h
  · cases h
  · rename_i exp hexp
    simp only [Bool.or_eq_true, decide_eq_true_eq] at h
    exact ⟨exp, hexp, h⟩

theorem acquireToken (scope : Bytes) (now : Int) (spent : Bool) (s : Ctx) : wp (acquireToken cfg scope now spent)
    (fun es r s' => (justified cfg).rel s es s' ∧ ∀ a, r = .ok a → a.outcome = .error .authFailed → a.drift = true →
      s'.lastError.httpStatus = 401 → DriftRefused now es) s := by
  unfold EncedoHem.acquireToken
  rw [wp_bind, wp_globalInit]
  intro init
  have hinit : (justified cfg).rel s [⟨.globalInit, init⟩] s := neutral.quiet s _ rfl
  cases init with
  | error rc =>
    dsimp only
    refine wp_mono (wp_and (Keeps.after (.bind (.attempt (neutral.ctxFail ..)) fun _ => .pure _) hinit)
      (Yields.run (.bind fun _ => .pure (V := fun a : Acquired => a.drift = false) rfl) s)) ?_
    rintro es r s' ⟨hk, hv⟩
    exact ⟨hk, fun a ha _ hd => absurd (hv a ha) (by simp [hd])⟩
  | ok u =>
    dsimp only
    rw [wp_bind]
    refine wp_mono (fetchChallenge spent s) fun es r s₁ ⟨hk, hc⟩ => ?_
    have hk₁ := (justified cfg).trans hinit hk
    cases r with
    | error rc => exact ⟨hk₁, fun a ha => by cases ha⟩
    | ok p =>
      obtain ⟨r, sp⟩ := p
      cases r with
      | error rc =>
        refine wp_pure.mpr ⟨by simpa using hk₁, fun a ha _ hd => ?_⟩
        rw [← Except.ok.inj ha] at hd
        cases hd
      | ok challenge =>
        dsimp only
        rw [wp_bind, wp_attempt]
        have hkeep : Keeps (justified cfg) (answerChallenge cfg scope now challenge) :=
          neutral.answerChallenge (fun _ => modifyAuth _) (fun _ => machinery.redeemEjwt (put _) (modifyAuth _)) _
        refine wp_mono (wp_and (wp_and (hkeep.run s₁) (answerChallenge_refused scope now challenge s₁))
          ((unchallenged_answerChallenge scope now challenge).run s₁)) ?_
        rintro es' r s₂ ⟨⟨hk₂, hpost⟩, hun⟩
        refine wp_pure.mpr ⟨by simpa using (justified cfg).trans hk₁ hk₂, fun a ha ho hd h401 => ?_⟩
        obtain rfl := Except.ok.inj ha
        simp only [List.append_nil]
        obtain ⟨exp, hexp, hfar⟩ := drift_evident hd
        have hlast : Challenged (es ++ es') challenge := by
          obtain ⟨body, hl, hp⟩ := hc challenge sp rfl
          exact ⟨body, by rw [latest_append_none hun]; exact hl, hp⟩
        exact ⟨(hpost ho h401).append.append, challenge, exp, hlast.append, hexp, hfar⟩

/-- The login flow with its drift recovery, after a history that ends with the reading `now`. -/
theorem recoverDrift {s₀ s : Ctx} {h : List Event} (hh : (justified cfg).rel s₀ h s) {scope : Bytes} {now : Int}
    {a : Acquired} (ha : a.outcome = .error .authFailed → a.drift = true → s.lastError.httpStatus = 401 →
      DriftRefused now h) (hnow : latest Event.authReading h = some now) :
    wp (recoverDrift cfg scope a) (fun es _ s' => (justified cfg).rel s₀ (h ++ es) s') s := by
  have hpass : wp (Pure.pure a.outcome : Cmd (Except Rc Bytes))
      (fun es _ s' => (justified cfg).rel s₀ (h ++ es) s') s := (Keeps.pure _).after hh
  unfold EncedoHem.recoverDrift
  rw [wp_bind, wp_getCtx]
  simp only [List.nil_append]
  split
  · rename_i ho
    rw [wp_ite]
    split
    · rename_i hg
      obtain ⟨⟨req, resp, hl, h401, hkind⟩, challenge, exp, ⟨body, hbody, hparse⟩, hexp, hfar⟩ := ha ho hg.1 hg.2.1
      have hc : Cause cfg s₀ h .recovery := .loginDrift req resp body challenge exp now (by simpa using hg.2.2.2.1)
        hl h401 hkind hbody hparse hexp hnow hfar
      rw [wp_bind, wp_attempt]
      refine wp_mono (recovery_after hh hc) fun check crc s₁ hk => ?_
      cases crc with
      | ok u =>
        have hagain : ∀ now, Keeps (justified cfg) (EncedoHem.acquireToken cfg scope now true) := fun now =>
          ⟨fun s => wp_mono (acquireToken scope now true s) fun _ _ _ h => h.1⟩
        dsimp only
        simp only [← List.append_assoc]
        exact Keeps.after (.bind (timed.askClock rfl) fun _ => .bind (hagain _) fun _ => .pure _) hk
      | error e =>
        dsimp only
        simp only [← List.append_assoc]
        exact Keeps.after (.bind .get fun _ => .attempt (neutral.ctxFail ..)) hk
    · exact hpass
  · exact hpass

/-- An acquisition in a passphrase session, after the reading `now`. -/
theorem acquirePassphrase {s₀ s : Ctx} {h : List Event} (hh : (justified cfg).rel s₀ h s) {scope : Bytes} {now : Int}
    (hnow : latest Event.authReading h = some now) :
    wp (acquirePassphrase cfg scope now) (fun es _ s' => (justified cfg).rel s₀ (h ++ es) s') s := by
  have hread : Keeps (Emits Unread) (EncedoHem.mark .acquire >>= fun _ => EncedoHem.proactiveCheckin cfg) := by
    have hm : ∀ m, Unread ⟨.mark m, ()⟩ := fun _ => rfl
    refine .bind (.ask fun _ _ => emits_single (hm _)) fun _ => .bind .get fun s => ?_
    refine .ite (fun _ => .bind (.modify fun _ => emits_nil) fun _ => ?_) fun _ => .pure _
    refine .bind (.attempt (emits_checkin hm (fun _ h => unread_leg h) _)) fun r => ?_
    split
    · exact .pure _
    · exact .pure _
  unfold EncedoHem.acquirePassphrase
  rw [← Cmd.bind_assoc, wp_bind]
  refine wp_mono (wp_and (proactiveCheckin.after hh) (hread.run s)) fun es r s₁ ⟨hk, hun⟩ => ?_
  cases r with
  | error rc => exact hk
  | ok failed =>
    dsimp only
    rw [wp_bind]
    refine wp_mono (wp_and (acquireToken scope now false s₁) ((unread_acquireToken scope now false).run s₁)) ?_
    rintro es' r s₂ ⟨⟨hk', ha⟩, hun'⟩
    have hk₂ := (justified cfg).trans hk hk'
    cases r with
    | error rc => simpa using hk₂
    | ok a =>
      have hnow₂ : latest Event.authReading (h ++ es ++ es') = some now := by
        rw [latest_append_none hun', latest_append_none hun]
        exact hnow
      dsimp only
      rw [wp_bind]
      refine wp_mono (recoverDrift hk₂ (fun ho hd h401 => ?_) hnow₂) fun es'' r s₃ hk₃ => ?_
      · obtain ⟨hpost, challenge, exp, hc, hrest⟩ := ha a rfl ho hd h401
        exact ⟨hpost.append, challenge, exp, hc.append, hrest⟩
      · cases r with
        | error rc => simpa using hk₃
        | ok r =>
          have hend : Keeps (justified cfg) (liftRc r >>= fun token => do
              breadcrumb failed
              EncedoHem.mark (.granted scope token none)
              pure token) :=
            .bind (Neutral.liftRc _) fun token => .bind (neutral.breadcrumb _) fun _ =>
              .bind (mark rfl (by simp)) fun _ => .pure _
          simpa using hend.after hk₃

theorem authCacheSeed (scope token : Bytes) : Keeps (justified cfg) (authCacheSeed scope token) :=
  .bind needAuth fun _ => .bind (neutral.peekClaim ..) fun _ => .bind (timed.expiryOr _) fun _ =>
    .bind (put ..) fun _ => .ite (fun _ => .pure _) fun _ => neutral.outOfMemory

theorem confirmPoll (c : Confirm) : Keeps (justified cfg) (confirmPoll cfg c) :=
  machinery.pushing.confirmPoll fun _ => .bind (mark rfl (by simp)) fun _ =>
    .bind (machinery.pushing.extToken _) fun _ => .bind (authCacheSeed ..) fun _ => .pure _

theorem confirmWait (c : Confirm) (timeoutMs : Int) : Keeps (justified cfg) (confirmWait cfg c timeoutMs) :=
  machinery.pushing.confirmWait fun c' _ => confirmPoll c'

theorem acquireMobile (scope : Bytes) : Keeps (justified cfg) (acquireMobile cfg scope) := by
  unfold EncedoHem.acquireMobile
  rw [← Cmd.bind_assoc]
  refine .bind proactiveCheckin fun _ => .bind (confirmBegin ..) fun c => .bind (confirmWait ..) fun ⟨r, c⟩ => ?_
  refine .bind (Neutral.liftRc _) fun _ => .bind .get fun s => ?_
  split
  · exact neutral.ctxFail ..
  · exact .bind (mark rfl (by simp)) fun _ => .pure _

theorem ensureToken (scope : Bytes) : Keeps (justified cfg) (ensureToken cfg scope) := by
  refine ⟨fun s => ?_⟩
  unfold EncedoHem.ensureToken
  rw [wp_bind, wp_authNow]
  intro now
  have hread : (justified cfg).rel s [⟨.authNow, now⟩] s := timed.clock s _ rfl
  dsimp only
  rw [wp_bind, wp_getCtx]
  simp only [List.nil_append]
  split
  · exact Keeps.after (.bind (mark rfl (by simp)) fun _ => .pure _) hread
  · split
    · split
      · exact Keeps.after (acquireMobile scope) hread
      · split
        · exact acquirePassphrase hread rfl
        · exact Keeps.after (neutral.ctxFail ..) hread
    · exact Keeps.after (neutral.ctxFail ..) hread

theorem doSend {scope : Option Bytes} {method : Method} {path : Bytes} {body bearer : Option Bytes} {ov : TlsOverride}
    {fresh : Bool} : Keeps (justified cfg) (doSend cfg scope method path body bearer ov fresh) :=
  neutral.doSend fun _ _ => event rfl rfl rfl

/-- A request that the context verifies, under whatever scope. -/
theorem requestRaw (method : Method) (path : Bytes) (body scope : Option Bytes) :
    Keeps (justified cfg) (requestRaw cfg method path body scope .default) := by
  refine .ite (fun _ => neutral.ctxFail ..) fun _ => .bind ?_ fun bearer => ?_
  · cases scope with
    | none => exact .pure _
    | some sc => exact .bind (ensureToken sc) fun _ => .bind (.bind neutral.need fun _ => .pure _) fun _ => .pure _
  · unfold exchangeWith
    rw [← Cmd.bind_assoc]
    refine .bind ⟨fun s => ?_⟩ fun a => .bind (neutral.requireDone ..) fun r => ?_
    · refine wp_mono (wp_tried scope method path body bearer) ?_
      rintro es r s' ⟨hf, last, ht, -⟩ hs
      exact ht.justified (fun _ => rfl) hs hf
    · exact .bind (neutral.retryAuth (fun sc _ => modifyAuth _) (fun sc _ => ensureToken sc) fun _ _ => doSend)
        fun r => neutral.judge ..

/-- A request that is verified in full, under no scope. -/
theorem requestCloud (method : Method) (url : Bytes) (body : Option Bytes) :
    Keeps (justified cfg) (EncedoHem.requestRaw cfg method url body none .verify) :=
  neutral.requestRawWith_plain (fun _ => still rfl rfl) (fun h => by cases h) fun _ _ _ => event rfl rfl rfl

/-- A check-in that the client asked for. -/
theorem systemCheckin : Keeps (justified cfg) (checkinRunInfo cfg .explicit true) := by
  refine ⟨fun s => ?_⟩
  unfold checkinRunInfo guardCheckin
  rw [wp_bind, wp_mark, wp_bind, wp_modifyCtx, wp_bind, wp_attempt]
  refine wp_mono (Keeps.run (.bind (legs_checkinLegs cfg) fun _ => legs_neutral.harvest ..) _) fun es r s' ⟨hes, hf⟩ => ?_
  have hrel : (justified cfg).rel s ([⟨.mark (.checkin .explicit), ()⟩] ++ ([] ++ (es ++ ([] ++
      ([⟨.mark .checkinDone, ()⟩] ++ []))))) (s'.setInCheckin false) := by
    intro hs
    have hnil : Justified cfg s [] s := .calm .nil hs rfl
    exact hnil.check (fun hn => absurd rfl hn) ⟨es, by simp, hes⟩ ⟨hf.auth, rfl, hf.latch, hf.handles⟩
  dsimp only
  rw [wp_bind, wp_modifyCtx, wp_bind, wp_mark]
  cases r with
  | ok a => exact wp_pure.mpr hrel
  | error rc => exact wp_throwRc.mpr hrel

theorem setSession {f : Auth → Ctx → Ctx} {m : Mark} (hb : Event.brackets ⟨.mark m, ()⟩ = false) (ha : m ≠ .acquire)
    (hi : ∀ a s, (f a s).inCheckin = s.inCheckin) (hl : ∀ a s, (f a s).checkinOnLoginDone = s.checkinOnLoginDone) :
    Keeps (justified cfg) (EncedoHem.needAuth >>= fun a => modifyCtx (f a) >>= fun _ => EncedoHem.mark m) :=
  .bind needAuth fun a => .bind (.modify fun s => still (hi a s) (hl a s)) fun _ => mark hb ha

theorem loginMarked {m : Mark} (hb : Event.brackets ⟨.mark m, ()⟩ = false) (ha : m ≠ .acquire) (passphrase : Bytes) :
    Keeps (justified cfg) (loginMarked cfg m passphrase) :=
  .bind neutral.clearError fun _ => .bind neutral.need fun _ => setSession hb ha (fun _ _ => rfl) fun _ _ => rfl

/-- Every call of the interface keeps the law. -/
theorem prim {α : Type} {x : Cmd α} (hx : Prim cfg α x) : Keeps (justified cfg) x := by
  have htake : ∀ i, Keeps (justified cfg) (takeHandle i) := fun i => Sessional.takeHandle i
  have hset : ∀ i c, Keeps (justified cfg) (modifyCtx (·.setHandle i c)) := fun i c => .modify fun s => still rfl rfl
  cases hx with
  | part _ _ hp => exact hp.keeps machinery
  | device method path body scope => exact requestRaw ..
  | cloud method url body => exact requestCloud ..
  | checkin => exact systemCheckin
  | login passphrase => exact loginMarked rfl (by simp) passphrase
  | loginMobile => exact .bind neutral.clearError fun _ => setSession rfl (by simp) (fun _ _ => rfl) fun _ _ => rfl
  | logout =>
    exact .bind neutral.clearError fun _ => .bind (.modify fun s => still rfl rfl) fun _ => mark rfl (by simp)
  | authInvalidateAll => exact .bind (modifyAuth _) fun _ => mark rfl (by simp)
  | deviceInit p out =>
    exact timed.deviceInit (P := fun _ => True) trivial (fun _ _ _ _ => requestPlainJson ..) fun q token =>
      .bind (loginMarked rfl (by simp) _) fun _ => authCacheSeed ..
  | confirmBegin url scope ctxStr note =>
    exact .bind (confirmBegin ..) fun c => .bind .get fun _ => .bind (.modify fun s => still rfl rfl) fun _ => .pure _
  | confirmPoll i =>
    exact .bind (htake i) fun _ => .bind (confirmPoll _) fun _ => .bind (hset i _) fun _ => Neutral.liftRc _
  | confirmWait i timeoutMs =>
    exact .bind (htake i) fun _ => .bind (confirmWait _ _) fun _ => .bind (hset i _) fun _ => Neutral.liftRc _
  | confirmCancel i => exact hset i _

end Lawful

/-- The calls made on a context since it was created, each by what it did, and the state they left. -/
inductive Calls (cfg : Config) : List (List Event) → Ctx → Prop where
  | new : Calls cfg [] .initial
  | call {α : Type} {calls : List (List Event)} {s s' : Ctx} {es : List Event} {r : Except Rc α} (h : Calls cfg calls s)
      (x : Api cfg α) (hr : Runs x.cmd s es r s') : Calls cfg (calls ++ [es]) s'

/-- No token was acquired in the calls. -/
def NoneAcquired (calls : List (List Event)) : Prop := ∀ es ∈ calls, ∀ e ∈ es, Event.isAcquire e = false

/-- The law of check-ins for one call, `before` being the calls before it: none starts in another or is left
running, and one that the client did not ask for has its cause on record right before it. -/
structure CheckinLaw (cfg : Config) (before : List (List Event)) (es : List Event) : Prop where
  paired : running false es = some false
  caused : ∀ pre why post, es = pre ++ ⟨.mark (.checkin why), ()⟩ :: post → why ≠ .explicit →
    ∃ s, Calls cfg before s ∧ Cause cfg s pre why
  first : ∀ pre post, es = pre ++ ⟨.mark (.checkin .proactive), ()⟩ :: post → NoneAcquired before

section
variable {cfg : Config}

theorem Cause.automatic {s : Ctx} {pre : List Event} {why : CheckinReason} (h : Cause cfg s pre why)
    (hw : why ≠ .proactive) : cfg.noAutoCheckin = false := by
  cases h with
  | certificate scope req why detail auto => exact auto
  | forbidden req r auto => exact auto
  | loginDrift req r body challenge exp now auto => exact auto
  | brokerDrift req r url authreq epk iat now auto => exact auto
  | proactive => exact absurd rfl hw

/-- What holds between calls: no check-in is running, and with the option set the latch tells of any acquisition. -/
structure Between (cfg : Config) (calls : List (List Event)) (s : Ctx) : Prop where
  idle : s.inCheckin = false
  latched : cfg.checkinOnLogin = true → s.checkinOnLoginDone = true ∨ NoneAcquired calls

theorem Calls.between {calls : List (List Event)} {s : Ctx} (h : Calls cfg calls s) : Between cfg calls s := by
  induction h with
  | new => exact ⟨rfl, fun _ => .inr fun _ h => absurd h List.not_mem_nil⟩
  | @call α calls s s' es r h x hr ih =>
    have hj := (x.keeps fun _ _ hx => Lawful.prim hx).run _ _ _ _ hr ih.idle
    refine ⟨hj.guard, fun ho => ?_⟩
    by_cases hes : ∃ e ∈ es, Event.isAcquire e = true
    · obtain ⟨e, he, ha⟩ := hes
      exact .inl (hj.latched ho e he ha)
    · rcases ih.latched ho with hl | hnone
      · exact .inl (hj.kept hl)
      · refine .inr fun past hpast e he => ?_
        rcases List.mem_append.mp hpast with hpast | hpast
        · exact hnone past hpast e he
        · rw [List.mem_singleton.mp hpast] at he
          by_contra ha
          exact hes ⟨e, he, by simpa using ha⟩

theorem Calls.law {calls : List (List Event)} {s s' : Ctx} {α : Type} {x : Api cfg α} {es : List Event} {r : Except Rc α}
    (h : Calls cfg calls s) (hr : Runs x.cmd s es r s') : CheckinLaw cfg calls es where
  paired := ((x.keeps fun _ _ hx => Lawful.prim hx).run _ _ _ _ hr h.between.idle).paired
  caused pre why post he hw :=
    ⟨s, h, ((x.keeps fun _ _ hx => Lawful.prim hx).run _ _ _ _ hr h.between.idle).causes pre why post he hw⟩
  first pre post he := by
    have hj := (x.keeps fun _ _ hx => Lawful.prim hx).run _ _ _ _ hr h.between.idle
    cases hj.causes pre .proactive post he (by simp) with
    | proactive option first last once =>
      rcases h.between.latched option with hl | hnone
      · rw [first] at hl
        cases hl
      · exact hnone

/-- In every sequence of calls on a context a check-in that the client did not ask for follows on one of its
causes in the same call: a request to the device that the context verifies has met an expired certificate, the
device has refused a challenge or a post of the ext-login pair as forbidden, or the login post or the broker's
event as unauthorised while a clock was off, or it is the session's first acquisition. With recovery turned off
only the last remains; no check-in starts in another, and none is running between calls. -/
theorem checkins_caused {calls : List (List Event)} {s : Ctx} (h : Calls cfg calls s) :
    s.inCheckin = false ∧ ∀ before es after, calls = before ++ es :: after → CheckinLaw cfg before es ∧
      (cfg.noAutoCheckin = true → ∀ pre why post, es = pre ++ ⟨.mark (.checkin why), ()⟩ :: post →
        why = .explicit ∨ why = .proactive) := by
  refine ⟨h.between.idle, ?_⟩
  induction h with
  | new => exact fun before es after he => by simp at he
  | call h x hr ih =>
    intro before es after he
    rcases List.eq_nil_or_concat' after with rfl | ⟨mid, d, rfl⟩
    · obtain ⟨rfl, hl⟩ := List.append_inj' he rfl
      obtain ⟨rfl, -⟩ := List.cons.inj hl
      have hlaw := h.law hr
      refine ⟨hlaw, fun hoff pre why post hes => ?_⟩
      by_contra hw
      simp only [not_or] at hw
      obtain ⟨s₀, -, hc⟩ := hlaw.caused pre why post hes hw.1
      rw [hc.automatic hw.2] at hoff
      cases hoff
    · rw [← List.cons_append, ← List.append_assoc] at he
      obtain ⟨rfl, -⟩ := List.append_inj' he rfl
      exact ih before es mid rfl

end

def loginStart : Api .standard Unit := Api.login (lit "pw")

def settingsRead : Api .standard ConfigInfo := Api.systemConfig

/-- A login, and a read of the settings to which the device answers that its clock is unset. -/
def unsetClock : List (List Event) :=
  [scriptEvents loginStart.cmd .initial 5 [],
    scriptEvents settingsRead.cmd (scriptState loginStart.cmd .initial 5 []) 5 [.status 403]]

def Event.startsRecovery : Event → Bool
  | ⟨.mark (.checkin .recovery), _⟩ => true
  | _ => false

theorem unsetClock_caused : ∃ before es pre post s, unsetClock = before ++ [es] ∧
    es = pre ++ ⟨.mark (.checkin .recovery), ()⟩ :: post ∧ Cause .standard s pre .recovery := by
  have hcalls : Calls .standard unsetClock _ :=
    .call (.call .new loginStart (script_runs _ _ 5 [])) settingsRead (script_runs _ _ 5 [.status 403])
  have hstart : ∃ e ∈ scriptEvents settingsRead.cmd (scriptState loginStart.cmd .initial 5 []) 5 [.status 403],
      e.startsRecovery = true := by decide +kernel
  obtain ⟨⟨op, ans⟩, he, hs⟩ := hstart
  obtain ⟨pre, post, hsplit⟩ := List.append_of_mem he
  unfold Event.startsRecovery at hs
  split at hs
  · rename_i heq
    cases heq
    obtain ⟨hlaw, -⟩ := (checkins_caused hcalls).2 [_] _ [] rfl
    obtain ⟨s, -, hc⟩ := hlaw.caused pre .recovery post hsplit (by simp)
    exact ⟨[_], _, pre, post, s, rfl, hsplit, hc⟩
  · cases hs

end EncedoHem
