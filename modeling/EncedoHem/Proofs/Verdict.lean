import EncedoHem.Crypto
import EncedoHem.Proofs.Accepted
import EncedoHem.Proofs.CheckinLegs
import EncedoHem.Proofs.Dispatches

namespace EncedoHem
open Text Dialogue

namespace Call
variable {c : Call} {cfg : Config}

/-- The call is done with its request: it is not sent again, and the token engine, which
starts by reading the clock, is not asked again. -/
def Rest (c : Call) (es : List Event) : Prop := ∀ e ∈ es, c.Silent e ∧ e.op.clock = false

/-- The answer to the last dispatch of the call's own request. -/
def Final (c : Call) (es : List Event) (a : Answer) : Prop :=
  ∃ pre post scope req, es = pre ++ ⟨.send scope req, a⟩ :: post ∧ c.sent scope req = true ∧ c.Rest post

/-- What the request makes of its final answer. -/
def Judged (a : Answer) (r : Except Rc Bytes) (s' : Ctx) : Prop :=
  match a with
  | .done resp =>
    match resp.fault with
    | none => ∃ b, r = .ok b
    | some rc => r = .error rc ∧ s'.lastError.httpStatus = resp.status
  | .failed why expired _ => ∃ w : SendFailure, r = .error w.rc ∧ (expired = false → w = why)

theorem Rest.nil : c.Rest [] := by simp [Rest]

theorem Rest.left {es es' : List Event} (h : c.Rest (es ++ es')) : c.Rest es :=
  fun e he => h e (List.mem_append.mpr (.inl he))

theorem Rest.right {es es' : List Event} (h : c.Rest (es ++ es')) : c.Rest es' :=
  fun e he => h e (List.mem_append.mpr (.inr he))

theorem silent_calm {es : List Event} (h : Calm es) : ∀ e ∈ es, c.Silent e := by
  intro e he
  have hq := h e he
  obtain ⟨op, ans⟩ := e
  cases op with
  | send scope req => exact absurd hq Bool.false_ne_true
  | _ => rfl

theorem silent_not_sent {scope : Option Bytes} {req : Request} {a : Answer}
    (h : c.Silent ⟨.send scope req, a⟩) : c.sent scope req = false := by
  cases hs : c.sent scope req with
  | false => rfl
  | true => simp [Silent, answer?, hs] at h

theorem Final.not_silent {es : List Event} {a : Answer} (h : c.Final es a) : ¬∀ e ∈ es, c.Silent e := by
  obtain ⟨pre, post, scope, req, rfl, hs, -⟩ := h
  intro hall
  have := silent_not_sent (hall _ (List.mem_append.mpr (.inr List.mem_cons_self)))
  simp [hs] at this

/-- A final answer after a part without dispatches of the call is one of what follows. -/
theorem Final.right {es es' : List Event} {a : Answer} (hes : ∀ e ∈ es, c.Silent e)
    (h : c.Final (es ++ es') a) : c.Final es' a := by
  obtain ⟨pre, post, scope, req, he, hs, hr⟩ := h
  rcases split_append he with ⟨mid, rfl, rfl⟩ | ⟨mid, rfl, rfl⟩
  · have := silent_not_sent (hes _ (List.mem_append.mpr (.inr List.mem_cons_self)))
    simp [hs] at this
  · exact ⟨mid, post, scope, req, rfl, hs, hr⟩

/-- Whatever is final is judged. -/
def Closes (c : Call) (es : List Event) (r : Except Rc Bytes) (s' : Ctx) : Prop :=
  ∀ a, c.Final es a → Judged a r s'

/-- The same for what follows a dispatch answered with `a`. -/
structure Tail (c : Call) (a : Answer) (es : List Event) (r : Except Rc Bytes) (s' : Ctx) : Prop where
  here : c.Rest es → Judged a r s'
  later : c.Closes es r s'

theorem Closes.silent {es : List Event} {r : Except Rc Bytes} {s' : Ctx} (h : ∀ e ∈ es, c.Silent e) :
    c.Closes es r s' := fun _ hf => absurd h hf.not_silent

theorem Closes.after {es es' : List Event} {r : Except Rc Bytes} {s' : Ctx} (h' : c.Closes es' r s')
    (h : ∀ e ∈ es, c.Silent e) : c.Closes (es ++ es') r s' := fun a hf => h' a (hf.right h)

theorem wp_closes_dispatch {f : Answer → Cmd Bytes} {bearer : Option Bytes} {fresh : Bool} {s : Ctx}
    (hf : ∀ a, wp (f a) (c.Tail a) s) :
    wp (doSend cfg c.scope c.method c.path c.body bearer c.ov fresh >>= f) (c.Closes) s := by
  rw [wp_bind, wp_doSend]
  intro a
  refine wp_mono (hf a) fun es r s' h => ?_
  rw [List.append_assoc]
  refine Closes.after (fun b hb => ?_) (silent_calm (.pause cfg))
  obtain ⟨pre, post, scope, req, he, hs, hr⟩ := hb
  cases pre with
  | nil =>
    obtain ⟨hhead, rfl⟩ := List.cons.inj he
    simp only [Event.mk.injEq, Op.send.injEq] at hhead
    obtain ⟨⟨rfl, rfl⟩, ha⟩ := hhead
    rw [← eq_of_heq ha]
    exact h.here hr
  | cons e pre =>
    obtain ⟨-, rfl⟩ := List.cons.inj he
    exact h.later b ⟨pre, post, scope, req, rfl, hs, hr⟩

theorem wp_dispatch_not_rest {f : Answer → Cmd Bytes} {bearer : Option Bytes} {fresh : Bool} {s : Ctx} :
    wp (doSend cfg c.scope c.method c.path c.body bearer c.ov fresh >>= f) (fun es _ _ => ¬c.Rest es) s := by
  rw [wp_bind, wp_doSend]
  intro a es r s' _ hr
  have := silent_not_sent (hr.left.right _ List.mem_cons_self).1
  simp [sent, buildRequest] at this

/-- What comes after the answer without a dispatch of the call. -/
theorem wp_tail_silent {a : Answer} {x : Cmd Bytes} {s : Ctx} (hx : Keeps (Emits c.Silent) x)
    (hj : wp x (fun _ r s' => Judged a r s') s) : wp x (c.Tail a) s :=
  wp_mono (wp_and (hx.run s) hj) fun _ _ _ h => ⟨fun _ => h.2, .silent h.1⟩

theorem wp_judge_judged {path : Bytes} {resp : Response} {s : Ctx} :
    wp (judge path resp) (fun _ r s' => Judged (.done resp) r s') s := by
  apply wp_judge_of
  · intro b hf hb
    simp [Judged, hf]
  · intro rc es d hf hc hd
    simp [Judged, hf, Ctx.setError, hd.status]

/-- The engine starts by reading the clock. -/
theorem clock_ensureToken (sc : Bytes) (s : Ctx) :
    wp (ensureToken cfg sc) (fun es _ _ => ¬c.Rest es) s := by
  unfold ensureToken
  rw [wp_bind, wp_authNow]
  intro now es r s' _ hr
  have := (hr _ List.mem_cons_self).2
  simp [Op.clock] at this

theorem wp_closes_retry {resp : Response} {s : Ctx} :
    wp (retryAuth (ensureToken cfg) (fun bearer => doSend cfg c.scope c.method c.path c.body bearer c.ov true)
      c.path c.scope resp >>= judge c.path) (c.Tail (.done resp)) s := by
  have hn : Neutral (Emits c.Silent) := silent_neutral
  have hjudge : ∀ resp : Response, ∀ s, wp (judge c.path resp) (c.Tail (.done resp)) s :=
    fun resp s => wp_tail_silent (hn.judge ..) wp_judge_judged
  unfold retryAuth
  cases hs : c.scope with
  | none => exact hjudge resp s
  | some sc =>
    dsimp only
    by_cases h401 : resp.status = 401
    · simp only [h401, ne_eq, not_true_eq_false, ↓reduceIte, Cmd.bind_assoc]
      unfold authInvalidate modifyAuth
      rw [wp_bind, wp_modifyCtx]
      simp only [List.nil_append]
      have hsilent : Keeps (Emits c.Silent) (ensureToken cfg sc) := silent_ensureToken sc hs
      have hrest : ∀ s₁, wp (ensureToken cfg sc) (fun es _ _ => ¬c.Rest es) s₁ := clock_ensureToken sc
      have hclock := wp_and (hsilent.run (s.setAuth (s.auth.map (·.cacheRemove sc)))) (hrest _)
      refine wp_bind_of hclock ?_ ?_
      · rintro es token s₁ ⟨hes, hrest⟩
        refine wp_mono (Q := fun es' r s' => c.Closes es' r s') ?_ fun es' r s' h =>
          ⟨fun hr => absurd hr.left hrest, ?_⟩
        · unfold makeBearer
          simp only [Cmd.bind_assoc, Cmd.pure_bind]
          refine wp_bind_of (hn.need.run s₁) ?_ fun es' rc s₂ h => .silent h
          intro es' u s₂ hes'
          rw [← hs]
          refine wp_mono (wp_closes_dispatch fun a => ?_) fun es'' r s' h => h.after hes'
          cases a with
          | done resp' => exact hjudge resp' s₂
          | failed why expired detail =>
            dsimp only
            rw [ctxFail_bind]
            refine wp_tail_silent (hn.ctxFail ..) (wp_ctxFail.mpr fun _ => ⟨why, rfl, fun _ => rfl⟩)
        · exact h.after hes
      · rintro es rc s₁ ⟨hes, hrest⟩
        exact ⟨fun hr => absurd hr hrest, .silent hes⟩
    · simp only [h401, ne_eq, not_false_eq_true, ↓reduceIte]
      exact hjudge resp s

theorem wp_closes_finish {a : Answer} {s : Ctx} :
    wp (requireDone c.path a >>= fun resp => retryAuth (ensureToken cfg)
      (fun bearer => doSend cfg c.scope c.method c.path c.body bearer c.ov true) c.path c.scope resp >>=
        judge c.path) (c.Tail a) s := by
  have hn : Neutral (Emits c.Silent) := silent_neutral
  cases a with
  | done resp => exact wp_closes_retry
  | failed why expired detail =>
    change wp (sendFailed c.path why expired detail >>= _) _ s
    rw [sendFailed_bind]
    exact wp_tail_silent (hn.sendFailed ..) (wp_sendFailed_of fun d _ _ => ⟨why, rfl, fun _ => rfl⟩)

theorem wp_closes_exchange {bearer : Option Bytes} {s : Ctx} :
    wp (exchangeWith cfg (ensureToken cfg) (recoveryCheckin cfg) c.method c.path c.body c.scope c.ov bearer)
      c.Closes s := by
  have hn : Neutral (Emits c.Silent) := silent_neutral
  refine wp_closes_dispatch fun a => ?_
  unfold recoverCert
  simp only [Cmd.bind_assoc]
  rw [wp_bind, wp_getCtx]
  simp only [List.nil_append]
  cases a with
  | done resp => exact wp_closes_finish
  | failed why expired detail =>
    cases expired with
    | false => exact wp_closes_finish
    | true =>
      dsimp only
      split
      · exact wp_closes_finish
      · rename_i hg
        simp only [not_or, ne_eq, not_not] at hg
        simp only [Cmd.bind_assoc]
        rw [wp_bind, wp_attempt]
        refine wp_mono ((silent_recovery hg.2.2).run s) fun es crc s₁ hes => ?_
        cases crc with
        | error rc =>
          simp only [Cmd.bind_assoc, throwRc_bind, wp_bind, wp_record, wp_modifyCtx, wp_throwRc]
          intro copied
          refine ⟨fun _ => ⟨why, rfl, by simp⟩, .silent fun e he => ?_⟩
          simp only [recordEvents, List.append_nil] at he
          exact hes e he
        | ok u =>
          simp only [Cmd.bind_assoc]
          refine wp_mono (wp_and (wp_closes_dispatch fun b => ?_) wp_dispatch_not_rest) fun es' r s' h =>
            ⟨fun hr => absurd hr.right h.2, h.1.after hes⟩
          cases b with
          | done resp =>
            simp only [Cmd.bind_assoc]
            rw [wp_bind, wp_modifyCtx]
            exact wp_closes_finish
          | failed why' expired' detail' =>
            cases expired' with
            | false => exact wp_closes_finish
            | true =>
              simp only [Cmd.bind_assoc, throwRc_bind, wp_bind, wp_record, wp_modifyCtx, wp_throwRc]
              intro copied
              exact ⟨fun _ => ⟨why, rfl, by simp⟩, .silent (by simp [recordEvents])⟩

/-- What the request makes of its final answer is what the call returns. -/
theorem wp_closes_request {s : Ctx} :
    wp (requestRaw cfg c.method c.path c.body c.scope c.ov) c.Closes s := by
  have hn : Neutral (Emits c.Silent) := silent_neutral
  unfold requestRaw requestRawWith
  split
  · exact wp_mono ((hn.ctxFail ..).run s) fun _ _ _ h => .silent h
  · refine wp_bind_of ((silent_acquireBearer silent_ensureToken).run s) ?_ fun es rc s' h => .silent h
    intro es bearer s₁ h
    exact wp_mono wp_closes_exchange fun _ _ _ h' => h'.after h

end Call

/-- The body of a verification. -/
def mldsaVerifyBody (kid msg : Bytes) (sigCtx : Buf) (sig : Bytes) : Bytes :=
  printValue (.obj (strMember "kid" kid ++ b64Member "msg" msg ++ b64Member "sign" sig ++
    optB64Member "ctx" sigCtx))

/-- The request that a verification makes. -/
def mldsaVerifyCall (kid msg : Bytes) (sigCtx : Buf) (sig : Bytes) : Call :=
  ⟨.post, lit "/api/" ++ lit "crypto/pqc/mldsa/verify", some (mldsaVerifyBody kid msg sigCtx sig),
    some (useScope kid), .default⟩

namespace Neutral
variable {K : Contract Op Ans Ctx} (h : Neutral K) {cfg : Config}
include h

theorem checkKid (what kid : Bytes) : Keeps K (Api.checkKid what kid : Api cfg Unit).cmd := by
  unfold Api.checkKid
  rw [Program.cmd_ite]
  exact .ite (fun _ => .pure _) fun _ => h.ctxFail ..

theorem checkSize (what : Bytes) (name : String) (b : Bytes) (max : Nat) (more : String) :
    Keeps K (Api.checkSize what name b max more : Api cfg Unit).cmd := by
  unfold Api.checkSize
  rw [Program.cmd_ite]
  exact .ite (fun _ => h.ctxFail ..) fun _ => .pure _

theorem checkAtMost (what : Bytes) (name : String) (b : Buf) (max : Nat) :
    Keeps K (Api.checkAtMost what name b max : Api cfg Unit).cmd := by
  unfold Api.checkAtMost
  rw [Program.cmd_ite]
  exact .ite (fun _ => h.ctxFail ..) fun _ => .pure _

theorem mldsaBuild (what kid msg : Bytes) (sig : Bytes) (sigCtx : Buf) :
    Keeps K (Api.mldsaBuild what kid msg (some sig) sigCtx : Api cfg Bytes).cmd :=
  .bind (h.checkKid ..) fun _ => .bind (h.checkSize ..) fun _ => .bind (h.checkSize ..) fun _ =>
    .bind (h.checkAtMost ..) fun _ => h.printObject _

end Neutral

theorem yields_mldsaBuild (cfg : Config) (what kid msg sig : Bytes) (sigCtx : Buf) :
    Yields (Api.mldsaBuild what kid msg (some sig) sigCtx : Api cfg Bytes).cmd
      (· = mldsaVerifyBody kid msg sigCtx sig) :=
  .bind fun _ => .bind fun _ => .bind fun _ => .bind fun _ => .bind fun _ => .pure rfl

/-- The result that the interface documents for a status. -/
def Documented (status : Int) (r : Except Rc Unit) (s' : Ctx) : Prop :=
  if status = 200 then r = .ok ()
  else if status = 401 then r = .error .authFailed
  else if status = 403 then r = .error .scopeDenied
  else r = .error .device ∧ s'.lastError.httpStatus = status

/-- A response that the verdict is right about: neither of status 0 or 404, nor a body
with a 2xx status other than 200. -/
structure Response.Plain (resp : Response) : Prop where
  nonzero : resp.status ≠ 0
  found : resp.status ≠ 404
  empty : 200 ≤ resp.status → resp.status < 300 → resp.status ≠ 200 → resp.body = none ∨ resp.body = some []

/-- A response is taken for one with a body, for one without, or for its status. -/
theorem fault_cases (resp : Response) :
    (resp.fault = none ∧ 200 ≤ resp.status ∧ resp.status < 300 ∧ resp.body ≠ none ∧ resp.body ≠ some []) ∨
    (resp.fault = some .protocol ∧ 200 ≤ resp.status ∧ resp.status < 300 ∧
      (resp.body = none ∨ resp.body = some [])) ∨
    (resp.fault = some (mapHttpStatus resp.status) ∧ (resp.status < 200 ∨ 300 ≤ resp.status)) := by
  obtain ⟨status, body⟩ := resp
  unfold Response.fault
  by_cases h : status < 200 ∨ 300 ≤ status
  · exact .inr (.inr ⟨if_pos h, h⟩)
  · have hlow : 200 ≤ status := by omega
    have hhigh : status < 300 := by omega
    rw [if_neg h]
    cases body with
    | none => exact .inr (.inl ⟨rfl, hlow, hhigh, .inl rfl⟩)
    | some b =>
      cases b with
      | nil => exact .inr (.inl ⟨rfl, hlow, hhigh, .inr rfl⟩)
      | cons x xs => exact .inl ⟨rfl, hlow, hhigh, by simp, by simp⟩

section
variable {cfg : Config} {s : Ctx}

theorem wp_verdict_ok {Q : List Event → Except Rc Unit → Ctx → Prop} :
    wp (Api.mldsaVerdict (.ok ()) : Api cfg Unit).cmd Q s ↔ Q [] (.ok ()) (s.setError .clear) := by
  change wp (getCtx >>= fun _ => clearError) Q s ↔ _
  simp

theorem wp_verdict_error {Q : List Event → Except Rc Unit → Ctx → Prop} {rc : Rc} (h : rc ≠ .protocol) :
    wp (Api.mldsaVerdict (.error rc) : Api cfg Unit).cmd Q s ↔ Q [] (.error rc) s := by
  have hrest : (Api.mldsaVerdict (.error rc) : Api cfg Unit).cmd = getCtx >>= fun _ => throwRc rc := by
    cases rc <;> first | rfl | exact absurd rfl h
  rw [hrest]
  simp

theorem emptyOk_error {rc : Rc} {status : Int} (h : rc ≠ .protocol) :
    Api.emptyOk (.error rc) status = .error rc := by
  cases rc <;> first | rfl | exact absurd rfl h

/-- A protocol error that carries a status was the device's own report. -/
theorem wp_verdict_protocol {Q : List Event → Except Rc Unit → Ctx → Prop}
    (hdevice : s.lastError.httpStatus ≠ 0 → ∀ d : ErrorDetail, d.httpStatus = s.lastError.httpStatus →
      Q [] (.error .device) (s.setError d))
    (hzero : s.lastError.httpStatus = 0 → Q [] (.error .protocol) s) :
    wp (Api.mldsaVerdict (.error .protocol) : Api cfg Unit).cmd Q s := by
  change wp (getCtx >>= fun s' => (if s'.lastError.httpStatus ≠ 0 then _ else _ : Api cfg Unit).cmd) Q s
  rw [wp_bind, wp_getCtx]
  dsimp only
  rw [Program.cmd_ite, wp_ite]
  split
  · rename_i h
    exact wp_ctxFail.mpr fun _ => hdevice h _ rfl
  · rename_i h
    exact wp_throwRc.mpr (hzero (not_not.mp h))

end

/-- The verdict on a final response. -/
theorem wp_mldsaVerdict {cfg : Config} {resp : Response} {r : Except Rc Bytes} {s : Ctx}
    (h : Call.Judged (.done resp) r s) :
    wp (Api.mldsaVerdict (Api.emptyOk r s.lastError.httpStatus) : Api cfg Unit).cmd
      (fun _ r s' => Documented resp.status r s' ↔ resp.Plain) s := by
  rcases fault_cases resp with ⟨hf, hlow, hhigh, hsome, hfull⟩ | ⟨hf, hlow, hhigh, hempty⟩ | ⟨hf, hrange⟩
  · simp only [Call.Judged, hf] at h
    obtain ⟨b, rfl⟩ := h
    rw [show Api.emptyOk (.ok b) s.lastError.httpStatus = .ok () from rfl, wp_verdict_ok]
    constructor
    · intro hdoc
      have h200 : resp.status = 200 := by
        by_contra hne
        have h401 : resp.status ≠ 401 := by omega
        have h403 : resp.status ≠ 403 := by omega
        simp [Documented, hne, h401, h403] at hdoc
      exact ⟨by omega, by omega, fun _ _ hne => absurd h200 hne⟩
    · intro hplain
      have h200 : resp.status = 200 := by
        by_contra hne
        rcases hplain.empty hlow hhigh hne with hb | hb
        · exact hsome hb
        · exact hfull hb
      simp [Documented, h200]
  · simp only [Call.Judged, hf] at h
    obtain ⟨rfl, hstatus⟩ := h
    have hplain : resp.Plain := ⟨by omega, by omega, fun _ _ _ => hempty⟩
    by_cases h200 : resp.status = 200
    · simp only [Api.emptyOk, hstatus, h200, ↓reduceIte]
      rw [wp_verdict_ok]
      simp [Documented, hplain]
    · simp only [Api.emptyOk, hstatus, h200, ↓reduceIte]
      have h401 : resp.status ≠ 401 := by omega
      have h403 : resp.status ≠ 403 := by omega
      apply wp_verdict_protocol
      · intro hne d hd
        simp [Documented, h200, h401, h403, hplain, Ctx.setError, hd, hstatus]
      · intro hz
        omega
  · simp only [Call.Judged, hf] at h
    obtain ⟨rfl, hstatus⟩ := h
    have h200 : resp.status ≠ 200 := by omega
    have hplain : resp.status ≠ 0 → resp.status ≠ 404 → resp.Plain := fun h0 h404 =>
      ⟨h0, h404, fun _ _ => by omega⟩
    by_cases h401 : resp.status = 401
    · have hmap : mapHttpStatus resp.status = .authFailed := by simp [mapHttpStatus, h401]
      rw [hmap, emptyOk_error (by simp), wp_verdict_error (by simp)]
      simp [Documented, h401, hplain (by omega) (by omega)]
    by_cases h403 : resp.status = 403
    · have hmap : mapHttpStatus resp.status = .scopeDenied := by simp [mapHttpStatus, h403]
      rw [hmap, emptyOk_error (by simp), wp_verdict_error (by simp)]
      simp [Documented, h403, hplain (by omega) (by omega)]
    by_cases h404 : resp.status = 404
    · have hmap : mapHttpStatus resp.status = .notFound := by simp [mapHttpStatus, h404]
      have hnot : ¬resp.Plain := fun h => h.found h404
      rw [hmap, emptyOk_error (by simp), wp_verdict_error (by simp)]
      simp [Documented, h404, hnot]
    by_cases h400 : 400 ≤ resp.status
    · have hmap : mapHttpStatus resp.status = .device := by simp [mapHttpStatus, h401, h403, h404, h400]
      rw [hmap, emptyOk_error (by simp), wp_verdict_error (by simp)]
      simp [Documented, h200, h401, h403, hstatus, hplain (by omega) h404]
    · have hmap : mapHttpStatus resp.status = .protocol := by simp [mapHttpStatus, h401, h403, h404, h400]
      simp only [hmap, Api.emptyOk, hstatus, h200, ↓reduceIte]
      apply wp_verdict_protocol
      · intro hne d hd
        simp [Documented, h200, h401, h403, Ctx.setError, hd, hstatus, hplain (by omega) h404]
      · intro hz
        have hnot : ¬resp.Plain := fun h => h.nonzero (by omega)
        simp [Documented, h200, h401, h403, hnot]

theorem wp_verdict_quiet {cfg : Config} (r : Except Rc Unit) (s : Ctx) :
    wp (Api.mldsaVerdict r : Api cfg Unit).cmd (fun es _ _ => es = []) s := by
  cases r with
  | ok u => exact wp_verdict_ok.mpr rfl
  | error rc =>
    by_cases h : rc = .protocol
    · rw [h]
      exact wp_verdict_protocol (fun _ _ _ => rfl) fun _ => rfl
    · exact (wp_verdict_error h).mpr rfl

theorem send_not_protocol (why : SendFailure) : why.rc ≠ .protocol := by
  cases why <;> simp [SendFailure.rc]

/-- What a verification makes of the final answer to its request. -/
structure Judged (c : Call) (es : List Event) (r : Except Rc Unit) (s' : Ctx) : Prop where
  answered : ∀ resp, c.Final es (.done resp) → (Documented resp.status r s' ↔ resp.Plain)
  failed : ∀ why expired detail, c.Final es (.failed why expired detail) →
    ∃ w : SendFailure, r = .error w.rc ∧ (expired = false → w = why)

theorem Judged.silent {c : Call} {es : List Event} {r : Except Rc Unit} {s' : Ctx}
    (h : ∀ e ∈ es, c.Silent e) : Judged c es r s' :=
  ⟨fun _ hf => absurd h hf.not_silent, fun _ _ _ hf => absurd h hf.not_silent⟩

theorem Judged.after {c : Call} {es es' : List Event} {r : Except Rc Unit} {s' : Ctx}
    (h' : Judged c es' r s') (h : ∀ e ∈ es, c.Silent e) : Judged c (es ++ es') r s' :=
  ⟨fun resp hf => h'.answered resp (hf.right h), fun why x d hf => h'.failed why x d (hf.right h)⟩

/-- The verdict on the outcome of the request. -/
theorem wp_judgedVerdict {cfg : Config} {c : Call} {es : List Event} {r : Except Rc Bytes} {s : Ctx}
    (h : c.Closes es r s) : wp (Api.mldsaVerdict (Api.emptyOk r s.lastError.httpStatus) : Api cfg Unit).cmd
      (fun es' r s' => es' = [] ∧ Judged c es r s') s := by
  intro es' v s' hrun
  refine ⟨wp_verdict_quiet _ s es' v s' hrun, ?_, ?_⟩
  · intro resp hf
    exact wp_mldsaVerdict (h _ hf) es' v s' hrun
  · intro why expired detail hf
    obtain ⟨w, rfl, hw⟩ := h _ hf
    have hne := send_not_protocol w
    rw [emptyOk_error hne] at hrun
    have hv : wp (Api.mldsaVerdict (.error w.rc) : Api cfg Unit).cmd (fun _ v _ => v = .error w.rc) s :=
      (wp_verdict_error hne).mpr rfl
    exact ⟨w, hv es' v s' hrun, hw⟩

theorem wp_mldsaVerify (cfg : Config) (kid msg : Bytes) (sigCtx : Buf) (sig : Bytes) (s : Ctx) :
    wp (Api.mldsaVerify kid msg sigCtx sig : Api cfg Unit).cmd
      (Judged (mldsaVerifyCall kid msg sigCtx sig)) s := by
  have hn : Neutral (Emits (mldsaVerifyCall kid msg sigCtx sig).Silent) := Call.silent_neutral
  change wp (clearError >>= fun _ => _ >>= fun body => _ >>= fun v => _) _ s
  rw [wp_bind, wp_clearError]
  simp only [List.nil_append]
  have hbuild : ∀ what, Keeps (Emits (mldsaVerifyCall kid msg sigCtx sig).Silent)
      (Api.mldsaBuild what kid msg (some sig) sigCtx : Api cfg Bytes).cmd := fun what =>
    hn.mldsaBuild what kid msg sig sigCtx
  refine wp_bind_of (wp_and ((hbuild _).run _)
    ((yields_mldsaBuild cfg _ kid msg sig sigCtx).run _)) ?_ fun es rc s₁ hes => .silent hes.1
  rintro es body s₁ ⟨hes, hbody⟩
  obtain rfl := hbody body rfl
  refine wp_mono (Q := Judged _) ?_ fun es' r s' h => h.after hes
  have hempty : ∀ c : Call, (Api.requestEmpty .post (lit "crypto/pqc/mldsa/verify") c.body c.scope :
      Api cfg (Except Rc Unit)).cmd = (EncedoHem.requestRaw cfg .post
        (lit "/api/" ++ lit "crypto/pqc/mldsa/verify") c.body c.scope .default).attempt >>= fun r =>
          getCtx >>= fun s => pure (Api.emptyOk r s.lastError.httpStatus) := fun _ => rfl
  change wp ((Api.requestEmpty .post _ (mldsaVerifyCall kid msg sigCtx sig).body
    (mldsaVerifyCall kid msg sigCtx sig).scope : Api cfg (Except Rc Unit)).cmd >>= _) _ s₁
  rw [hempty]
  simp only [Cmd.bind_assoc, Cmd.pure_bind]
  rw [wp_bind, wp_attempt]
  refine wp_mono (Call.wp_closes_request (c := mldsaVerifyCall kid msg sigCtx sig)) fun es' r s₂ h => ?_
  dsimp only
  rw [wp_bind, wp_getCtx]
  refine wp_mono (wp_judgedVerdict h) ?_
  rintro es'' v s' ⟨rfl, hv⟩
  simpa using hv

/-- A verification whose request has a final answer returns what is documented for it exactly
where the response is plain; a transport failure keeps its code. -/
theorem mldsa_verdict_iff (cfg : Config) (kid msg : Bytes) (sigCtx : Buf) (sig : Bytes) {s s' : Ctx}
    {es : List Event} {r : Except Rc Unit}
    (h : Runs (Api.mldsaVerify kid msg sigCtx sig : Api cfg Unit).cmd s es r s') :
    (∀ resp, (mldsaVerifyCall kid msg sigCtx sig).Final es (.done resp) →
      (Documented resp.status r s' ↔ resp.Plain)) ∧
    ∀ why expired detail, (mldsaVerifyCall kid msg sigCtx sig).Final es (.failed why expired detail) →
      ∃ w : SendFailure, r = .error w.rc ∧ (expired = false → w = why) :=
  let hv := wp_mldsaVerify cfg kid msg sigCtx sig s es r s' h
  ⟨hv.answered, hv.failed⟩

/-- A context with a bearer for the use of the sample key. -/
def verifierCtx : Ctx :=
  { Ctx.initial with auth := some ⟨none, 0, false, none, false, [⟨useScope sampleKid, lit "t", 9⟩]⟩ }

/-- The verification of a signature by the sample key. -/
def sampleVerify : Cmd Unit :=
  (Api.mldsaVerify sampleKid (lit "m") (.null 0) (lit "s") : Api .standard Unit).cmd

def sampleVerifyCall : Call := mldsaVerifyCall sampleKid (lit "m") (.null 0) (lit "s")

theorem Call.final_of_last {c : Call} {es : List Event} {a : Answer}
    (h : es.getLast?.bind c.answer? = some a) : c.Final es a := by
  obtain ⟨⟨op, ans⟩, hlast, hans⟩ := Option.bind_eq_some_iff.mp h
  cases op with
  | send scope req =>
    cases hs : c.sent scope req with
    | false => simp [Call.answer?, hs] at hans
    | true =>
      simp only [Call.answer?, hs, ↓reduceIte, Option.some.injEq] at hans
      subst hans
      exact ⟨es.dropLast, [], scope, req, (List.dropLast_append_getLast? _ hlast).symm, hs, .nil⟩
  | _ => simp [Call.answer?] at hans

/-- A device that fails reports itself. -/
theorem failing_device_reported : Documented 500
    (scriptResult sampleVerify verifierCtx 5 [.status 500]) (scriptState sampleVerify verifierCtx 5 [.status 500]) :=
  ((mldsa_verdict_iff .standard sampleKid (lit "m") (.null 0) (lit "s")
    (script_runs sampleVerify verifierCtx 5 [.status 500])).1 ⟨500, none⟩
      (Call.final_of_last (by decide +kernel))).mpr ⟨by decide, by decide, by decide⟩

/-- A 201 with a body passes for a valid signature. -/
theorem signature_accepted_on_created :
    sampleVerifyCall.Final (scriptEvents sampleVerify verifierCtx 5 [.done ⟨201, some (lit "x")⟩])
      (.done ⟨201, some (lit "x")⟩) ∧
    ¬Documented 201 (scriptResult sampleVerify verifierCtx 5 [.done ⟨201, some (lit "x")⟩])
      (scriptState sampleVerify verifierCtx 5 [.done ⟨201, some (lit "x")⟩]) := by
  have hok : scriptResult sampleVerify verifierCtx 5 [.done ⟨201, some (lit "x")⟩] = .ok () := by
    decide +kernel
  constructor
  · exact Call.final_of_last (by decide +kernel)
  · rw [hok]
    simp [Documented]

end EncedoHem
