import EncedoHem.Lib.Blind
import EncedoHem.Proofs.Acquisition
import EncedoHem.Scripted

namespace EncedoHem
open Text Dialogue

/-- The states that differ in the detail of an earlier failure only. -/
def forgetful : Likeness Ctx where
  rel s t := ∃ d, t = s.setError d
  refl s := ⟨s.lastError, rfl⟩

theorem erases_clearError : Erases forgetful clearError := by
  refine .modify ?_
  rintro s t ⟨d, rfl⟩
  rfl

/-- A message that does not quote the one before it. -/
def unquoted : List Piece → Bool
  | [] => true
  | .text _ :: fmt => unquoted fmt
  | .ownMessage :: _ => false

theorem vsnprintf_unquoted {fmt : List Piece} (h : unquoted fmt = true) (old old' out : Bytes) :
    vsnprintf old fmt out = vsnprintf old' fmt out := by
  induction fmt generalizing out with
  | nil => rfl
  | cons p fmt ih =>
    cases p with
    | text b => exact ih h (out ++ b)
    | ownMessage => exact nomatch h

/-- A failure that is put on record leaves nothing of what was on record. -/
theorem erases_record {status : Int} {payload : Option Bytes} {fmt : List Piece}
    (h : unquoted fmt = true) : Erases forgetful (record status payload fmt) := by
  refine .bind (.modify ?_)
  rintro s t ⟨d, rfl⟩
  rw [vsnprintf_unquoted h (s.setError d).lastError.message s.lastError.message]
  rfl

theorem erases_ctxFail {α : Type} {rc : Rc} {status : Int} {payload : Option Bytes} {fmt : List Piece}
    (h : unquoted fmt = true) :
    Erases forgetful (ctxFail rc status payload fmt : Cmd α) :=
  .bind (erases_record h)

theorem erases_sendFailed {α : Type} (path : Bytes) (why : SendFailure) (expired : Bool) (detail : Bytes) :
    Erases forgetful (sendFailed path why expired detail : Cmd α) :=
  .bind (erases_record rfl)

/-- A push begins with a public function of the broker's, which clears the detail. -/
theorem erases_confirmFirePush {cfg : Config} (url : Option Bytes) (scope : Bytes)
    (ctxStr note : Option Bytes) : Erases forgetful (confirmFirePush cfg url scope ctxStr note) :=
  .bind (.attempt (.bind erases_clearError))

namespace Forgetful
variable {α : Type} {cfg : Config} {p : α → Prop}

theorem ctxFail {rc : Rc} {status : Int} {payload : Option Bytes} {fmt : List Piece}
    (h : unquoted fmt = true) :
    Blind forgetful p (ctxFail rc status payload fmt : Cmd α) := (erases_ctxFail h).blind p

theorem alloc : Blind forgetful (fun _ => False) alloc := .ask Op.alloc

theorem mark (m : Mark) : Blind forgetful (fun _ => False) (mark m) := .ask (Op.mark m)

/-- A change of the context that the detail has no part in. -/
theorem modifyCtx {f : Ctx → Ctx} (h : ∀ s d, f (s.setError d) = (f s).setError d) :
    Blind forgetful (fun _ => False) (modifyCtx f) := by
  refine .modify ?_
  rintro s t ⟨d, rfl⟩
  exact ⟨d, h s d⟩

theorem modifyAuth (f : Auth → Auth) : Blind forgetful (fun _ => False) (modifyAuth f) :=
  modifyCtx fun _ _ => rfl

theorem need : Blind forgetful (fun _ => False) need :=
  .bind alloc fun _ _ => .ite (fun _ => .pure id) fun _ => ctxFail rfl

theorem parseJson (b : Bytes) : Blind forgetful (fun _ => False) (parseJson b) :=
  .bind alloc fun _ _ => .pure id

theorem peekClaim (jwt key : Bytes) : Blind forgetful (fun _ => False) (peekClaim jwt key) := by
  unfold EncedoHem.peekClaim
  split
  · exact .pure id
  · refine .ite (fun _ => .pure id) fun _ => ?_
    split
    · exact .pure id
    · exact .bind (parseJson _) fun _ _ => .pure id

theorem doSend (scope : Option Bytes) (method : Method) (path : Bytes) (jsonBody bearer : Option Bytes)
    (ov : TlsOverride) (fresh : Bool) : Blind forgetful (fun _ => False)
      (doSend cfg scope method path jsonBody bearer ov fresh) :=
  .bind (.ite (fun _ => .pure id) fun _ => .ask (Op.sleep _)) fun _ _ => .ask (Op.send ..)

theorem requireDone (path : Bytes) (a : Answer) :
    Blind forgetful (fun _ => False) (requireDone path a) := by
  cases a with
  | done r => exact .pure id
  | failed why expired detail => exact (erases_sendFailed path why expired detail).blind _

theorem judge (path : Bytes) (r : Response) : Blind forgetful (fun _ => False) (judge path r) := by
  refine .ite (fun _ => ctxFail rfl) fun _ => ?_
  split
  · exact ctxFail rfl
  · exact ctxFail rfl
  · exact .pure id

theorem parseBody (path body : Bytes) : Blind forgetful (fun _ => False) (parseBody path body) := by
  refine .bind (parseJson _) fun root _ => ?_
  split
  · exact ctxFail rfl
  · exact .ite (fun _ => .pure id) fun _ => ctxFail rfl

/-- The recovery quotes the message of its own check-in only. -/
theorem recoverCert {checkin : Cmd Unit} {resend : Cmd Answer} {path : Bytes} {ov : TlsOverride}
    {a : Answer} (hc : ov = .default → Blind forgetful (fun _ => False) checkin)
    (hr : Blind forgetful (fun _ => False) resend) :
    Blind forgetful (fun _ => False) (recoverCert cfg checkin resend path ov a) := by
  refine .get_bind (fun s => ?_) ?_
  · split
    · refine .ite (fun _ => .pure id) fun hg => ?_
      simp only [not_or, ne_eq, not_not] at hg
      refine .bind (.attempt (hc hg.2.2)) fun crc hcrc => ?_
      obtain ⟨u, rfl, -⟩ := not_fails hcrc
      refine .bind hr fun a' _ => ?_
      split
      · exact .bind (modifyCtx fun _ _ => rfl) fun _ _ => .pure id
      · exact (Erases.bind (erases_record rfl) : Erases forgetful _).blind _
      · exact .pure id
    · exact .pure id
  · rintro s t ⟨d, rfl⟩
    rfl

/-- A request without a scope. -/
theorem requestRawWith {ensure : Bytes → Cmd Bytes} {checkin : Cmd Unit} {method : Method}
    {path : Bytes} {jsonBody : Option Bytes} {ov : TlsOverride}
    (hc : ov = .default → Blind forgetful (fun _ => False) checkin) :
    Blind forgetful (fun _ => False) (requestRawWith cfg ensure checkin method path jsonBody none ov) := by
  refine .ite (fun _ => ctxFail rfl) fun _ => .bind (.pure (p := fun _ => False) id) fun bearer _ => ?_
  refine .bind (doSend ..) fun a _ => .bind (recoverCert hc (doSend ..)) fun a _ => ?_
  refine .bind (requireDone ..) fun r _ => .bind (.pure (p := fun _ => False) id) fun r _ => judge ..

theorem checkinLegs : Blind forgetful (fun _ => False) (checkinLegs cfg true) := by
  have hrelax : deviceOverride true ≠ .default := by decide
  have hverify : TlsOverride.verify ≠ .default := by decide
  refine .bind (requestRawWith fun h => absurd h hrelax) fun _ _ => ?_
  refine .bind (requestRawWith fun h => absurd h hverify) fun _ _ => ?_
  refine .bind (requestRawWith fun h => absurd h hrelax) fun _ _ => ?_
  exact .bind (parseBody ..) fun _ _ => .pure id

theorem checkinRun (why : CheckinReason) : Blind forgetful (fun _ => False) (checkinRun cfg why true) := by
  refine .bind (mark _) fun _ _ => .bind (modifyCtx fun _ _ => rfl) fun _ _ => ?_
  refine .bind (.attempt (.bind checkinLegs fun _ _ => .pure (p := fun _ => False) id)) fun r hr => ?_
  obtain ⟨u, rfl, -⟩ := not_fails hr
  exact .bind (modifyCtx fun _ _ => rfl) fun _ _ => .bind (mark _) fun _ _ => .pure id

theorem requestPlainJson (method : Method) (path : Bytes) (body : Option Bytes) :
    Blind forgetful (fun _ => False) (requestPlainJson cfg method path body) :=
  .bind (requestRawWith fun _ => checkinRun _) fun _ _ => parseBody ..

theorem fetchChallenge (spent : Bool) :
    Blind forgetful (fun a => Failed a.1) (fetchChallenge cfg spent) := by
  refine .bind (.attempt (requestPlainJson ..)) fun r hr => ?_
  obtain ⟨challenge, rfl, -⟩ := not_fails hr
  exact .get_bind (fun _ => .pure fun ⟨_, h⟩ => nomatch h) fun _ _ _ => rfl

theorem noteUsername (challenge : Json) :
    Blind forgetful (fun _ => False) (noteUsername challenge) := by
  unfold EncedoHem.noteUsername
  split
  · exact .pure id
  · exact .bind alloc fun _ _ => .ite (fun _ => modifyAuth _) fun _ => .pure id

theorem cachePut (scope token : Bytes) (exp : Int) :
    Blind forgetful (fun _ => False) (cachePut scope token exp) := by
  refine .get_bind (fun s => .bind alloc fun _ _ => .ite (fun _ => .pure id) fun _ => ?_) ?_
  · split
    · exact .bind (modifyAuth _) fun _ _ => .pure id
    · refine .bind alloc fun _ _ => .ite (fun _ => .pure id) fun _ => .bind alloc fun _ _ => ?_
      exact .ite (fun _ => .pure id) fun _ => .bind (modifyAuth _) fun _ _ => .pure id
  · rintro s t ⟨d, rfl⟩
    rfl

theorem redeemEjwt (scope ejwt : Bytes) (now : Int) :
    Blind forgetful (fun _ => False) (redeemEjwt cfg scope ejwt now) := by
  refine .bind need fun _ _ => .bind (requestPlainJson ..) fun result _ => ?_
  split
  · exact ctxFail rfl
  · refine .bind (peekClaim ..) fun exp _ => .bind (cachePut ..) fun put _ => ?_
    exact .ite (fun _ => .bind (modifyAuth _) fun _ _ => .pure id) fun _ => ctxFail rfl

theorem deriveEjwt (scope eid spk jti peer : Bytes) (now : Int) :
    Heedless forgetful (deriveEjwt cfg scope eid spk jti peer now) := by
  have hlift : ∀ {β : Type} (r : Except Rc β), Heedless forgetful (liftRc r) := by
    intro β r
    cases r with
    | ok b => exact .pure b
    | error rc => exact .throw rc
  have hneed : Heedless forgetful needQuiet :=
    .bind (.ask Op.alloc) fun _ => .ite (fun _ => .pure _) fun _ => .throw _
  have hsign : ∀ header payload key, Heedless forgetful (signCompact header payload key) := by
    intro header payload key
    refine .bind hneed fun _ => ?_
    split
    · refine .bind hneed fun _ => .bind (.ask (Op.hmacSha256 ..)) fun mac => .bind (hlift _) fun mac => ?_
      split
      · exact .pure _
      · exact .throw _
    · exact .throw _
  refine .get_bind (fun s => ?_) ?_
  · refine .bind (.ask (Op.pbkdf2 ..)) fun seed => .bind (hlift _) fun seed => ?_
    refine .bind (.ask (Op.x25519Keypair _)) fun pair => .bind (hlift _) fun pair => ?_
    refine .bind (.ask (Op.x25519Shared ..)) fun shared => .bind (hlift _) fun shared => ?_
    unfold ejwtBuild
    split
    · exact .throw _
    · exact .bind hneed fun _ => hsign ..
  · rintro s t ⟨d, rfl⟩
    rfl

theorem answerChallenge (scope : Bytes) (now : Int) (challenge : Json) :
    Blind forgetful (fun _ => False) (answerChallenge cfg scope now challenge) := by
  unfold EncedoHem.answerChallenge
  split
  · refine .bind (noteUsername _) fun _ _ => ?_
    split
    · exact ctxFail rfl
    · refine .bind (deriveEjwt ..).attempt fun ejwt _ => ?_
      split
      · exact ctxFail rfl
      · exact redeemEjwt ..
  · exact ctxFail rfl

theorem acquireToken (scope : Bytes) (now : Int) (spent : Bool) :
    Blind forgetful (fun a => Failed a.outcome) (acquireToken cfg scope now spent) := by
  refine .bind (.ask Op.globalInit) fun init _ => ?_
  split
  · exact (Erases.bind (.attempt (erases_ctxFail rfl))).blind _
  · refine .bind (fetchChallenge spent) fun ⟨r, spent⟩ hr => ?_
    cases r with
    | error rc => exact absurd ⟨rc, rfl⟩ hr
    | ok challenge =>
      refine .bind (.attempt (answerChallenge ..)) fun r hr => ?_
      obtain ⟨token, rfl, -⟩ := not_fails hr
      exact .pure fun ⟨_, h⟩ => nomatch h

theorem proactiveCheckin : Blind forgetful (fun _ => False) (proactiveCheckin cfg) := by
  refine .get_bind (fun s => .ite (fun _ => ?_) fun _ => .pure id) ?_
  · refine .bind (modifyCtx fun _ _ => rfl) fun _ _ => .bind (.attempt (checkinRun _)) fun r hr => ?_
    obtain ⟨u, rfl, -⟩ := not_fails hr
    exact .pure id
  · rintro s t ⟨d, rfl⟩
    rfl

theorem recoverDrift (scope : Bytes) {a : Acquired} (h : ¬Failed a.outcome) :
    Blind forgetful Failed (recoverDrift cfg scope a) := by
  obtain ⟨r, spent, drift⟩ := a
  cases r with
  | error rc => exact absurd ⟨rc, rfl⟩ h
  | ok token => exact .get_bind (fun _ => .pure h) fun _ _ _ => rfl

theorem acquirePassphrase (scope : Bytes) (now : Int) :
    Blind forgetful (fun _ => False) (acquirePassphrase cfg scope now) := by
  refine .bind (mark _) fun _ _ => .bind proactiveCheckin fun failed _ => ?_
  refine .bind (acquireToken ..) fun a ha => .bind (recoverDrift scope ha) fun r hr => ?_
  cases r with
  | error rc => exact absurd ⟨rc, rfl⟩ hr
  | ok token =>
    refine .bind (.pure (p := fun _ => False) id) fun token _ => .bind (p := fun _ => False) ?_ fun _ _ => ?_
    · refine .ite (fun _ => .modify ?_) fun _ => .pure id
      rintro s t ⟨d, rfl⟩
      exact ⟨{ d with message := _ }, rfl⟩
    · exact .bind (mark _) fun _ _ => .pure id

theorem acquireMobile (scope : Bytes) : Blind forgetful (fun _ => False) (acquireMobile cfg scope) := by
  have hbegin : Blind forgetful (fun _ => True) (confirmBegin cfg none scope none none) := by
    refine .bind (p := fun _ => False) ?_ fun c _ => (erases_confirmFirePush ..).bind.blind _
    exact .bind need fun _ _ => .bind need fun _ _ => .pure id
  exact .bind (mark _) fun _ _ => .bind proactiveCheckin fun _ _ =>
    .bind hbegin fun _ h => absurd trivial h

theorem ensureToken (scope : Bytes) : Blind forgetful (fun _ => False) (ensureToken cfg scope) := by
  refine .bind (.ask Op.authNow) fun now _ => .get_bind (fun s => ?_) ?_
  · split
    · exact .bind (mark _) fun _ _ => .pure id
    · split
      · refine .ite (fun _ => acquireMobile scope) fun _ => ?_
        split
        · exact acquirePassphrase ..
        · exact ctxFail rfl
      · exact ctxFail rfl
  · rintro s t ⟨d, rfl⟩
    rfl

theorem retryAuth {ensure : Bytes → Cmd Bytes} {resend : Option Bytes → Cmd Answer} {path : Bytes}
    {scope : Option Bytes} {r : Response} (he : ∀ sc, Blind forgetful (fun _ => False) (ensure sc))
    (hr : ∀ b, Blind forgetful (fun _ => False) (resend b)) :
    Blind forgetful (fun _ => False) (EncedoHem.retryAuth ensure resend path scope r) := by
  unfold EncedoHem.retryAuth
  split
  · exact .pure id
  · refine .ite (fun _ => .pure id) fun _ => .bind (modifyAuth _) fun _ _ => .bind (he _) fun token _ => ?_
    refine .bind (.bind need fun _ _ => .pure (p := fun _ => False) id) fun bearer _ => ?_
    refine .bind (hr _) fun a _ => ?_
    split
    · exact .pure id
    · exact ctxFail rfl

/-- Any request at all. -/
theorem requestRaw (method : Method) (path : Bytes) (jsonBody scope : Option Bytes) (ov : TlsOverride) :
    Blind forgetful (fun _ => False) (requestRaw cfg method path jsonBody scope ov) := by
  refine .ite (fun _ => ctxFail rfl) fun _ => .bind (p := fun _ => False) ?_ fun bearer _ => ?_
  · cases scope with
    | none => exact .pure id
    | some sc =>
      refine .bind (ensureToken sc) fun token _ => ?_
      exact .bind (.bind need fun _ _ => .pure (p := fun _ => False) id) fun _ _ => .pure id
  · refine .bind (doSend ..) fun a _ => .bind (recoverCert (fun _ => checkinRun _) (doSend ..)) fun a _ => ?_
    refine .bind (requireDone ..) fun r _ => ?_
    exact .bind (retryAuth ensureToken fun b => doSend ..) fun r _ => judge ..

end Forgetful

/-- No credential and no bearer: no session state at all, or an empty one. -/
def Ctx.Unborn (s : Ctx) : Prop := s.auth = none ∨ s.auth = some .fresh

/-- The same session, but for the detail of an earlier failure and for an empty session
state in the place of none. -/
inductive Ctx.Twin (s t : Ctx) : Prop where
  | same (d : ErrorDetail) (h : t = s.setError d)
  | unborn (hs : s.Unborn) (ht : t.Unborn)

theorem Ctx.Unborn.session {s : Ctx} (h : s.Unborn) : s.session = .fresh := by
  unfold Ctx.session
  rcases h with h | h
  · rw [h]
    rfl
  · rw [h]
    rfl

theorem Ctx.Twin.symm {s t : Ctx} (h : s.Twin t) : t.Twin s := by
  cases h with
  | same d h => exact .same s.lastError (by rw [h]; rfl)
  | unborn hs ht => exact .unborn ht hs

theorem Ctx.Twin.session {s t : Ctx} (h : s.Twin t) : t.session = s.session := by
  cases h with
  | same d h => exact session_congr (by rw [h]; rfl)
  | unborn hs ht => rw [hs.session, ht.session]

/-- The call does the same in both contexts: the same exchanges, outcome and session, and
after a failure the same detail. -/
def SameCall {α : Type} (x : Cmd α) (s t : Ctx) : Prop :=
  ∀ es r s', Runs x s es r s' → ∃ t', Runs x t es r t' ∧ t'.session = s'.session ∧
    ∀ rc, r = .error rc → t'.lastError = s'.lastError

/-- The calls for a scope: its token, and a request under it, which may follow on the
clearing of the error detail that a public function begins with. -/
inductive ScopedCall (cfg : Config) (scope : Bytes) : Cmd Bytes → Prop where
  | token : ScopedCall cfg scope (ensureToken cfg scope)
  | request (method : Method) (path : Bytes) (jsonBody : Option Bytes) (ov : TlsOverride) :
      ScopedCall cfg scope (requestRaw cfg method path jsonBody (some scope) ov)
  | cleared (x : Cmd Bytes) (h : ScopedCall cfg scope x) :
      ScopedCall cfg scope (clearError >>= fun _ => x)

/-- What is on record where there is no credential for the scope. -/
def noCredential (scope : Bytes) : ErrorDetail :=
  ⟨0, none, vsnprintf [] [txt "no credential retained for scope '", .text scope,
    txt "' - call ehem_login()"] [], false⟩

theorem ensureToken_unborn {cfg : Config} {scope : Bytes} {s : Ctx} (h : s.Unborn) :
    ensureToken cfg scope s =
      .ask .authNow fun _ => .ret (.error .authExpired, s.setError (noCredential scope)) := by
  have hfail : (ctxFail .authExpired 0 none [txt "no credential retained for scope '", .text scope,
      txt "' - call ehem_login()"] : Cmd Bytes) s =
        .ret (.error .authExpired, s.setError (noCredential scope)) := by
    show Prog.ret (Except.error Rc.authExpired, s.setError ⟨0, none, vsnprintf s.lastError.message
      [txt "no credential retained for scope '", .text scope, txt "' - call ehem_login()"] [], false⟩) = _
    rw [vsnprintf_unquoted rfl s.lastError.message []]
    rfl
  refine (Cmd.ask_bind_apply Op.authNow _ s).trans (congrArg _ (funext fun (now : Int) => ?_))
  refine (Cmd.get_bind_apply _ s).trans ?_
  have hf : s.freshEntry scope now = none := by
    unfold Ctx.freshEntry
    rcases h with h | h
    · rw [h]
      rfl
    · rw [h]
      rfl
  rcases h with h | h
  · rw [hf, h]
    exact hfail
  · rw [hf, h]
    exact hfail

/-- A request under a scope has no bearer then either. -/
theorem requestRaw_unborn {cfg : Config} {scope : Bytes} {method : Method} {path : Bytes}
    {jsonBody : Option Bytes} {ov : TlsOverride} {s : Ctx} (h : s.Unborn)
    (ht : cfg.hasTransport = true) : requestRaw cfg method path jsonBody (some scope) ov s =
      .ask .authNow fun _ => .ret (.error .authExpired, s.setError (noCredential scope)) := by
  unfold requestRaw requestRawWith
  rw [if_neg (by simp [ht])]
  show Prog.bind (Prog.bind (ensureToken cfg scope s) _) _ = _
  rw [ensureToken_unborn h]
  rfl

/-- Calls that fail alike with nothing changed but the detail on record. -/
theorem sameCall_unborn {x : Cmd Bytes} {p : Prog Op Ans Unit} {c : Rc} {d : ErrorDetail}
    (h : ∀ s : Ctx, s.Unborn → x s = p.bind fun _ => .ret (.error c, s.setError d)) {s t : Ctx}
    (hs : s.Unborn) (ht : t.Unborn) : SameCall x s t := by
  intro es r s' hrun
  have hrun : Run (x s) es (r, s') := hrun
  rw [h s hs] at hrun
  obtain ⟨es₁, u, es₂, rfl, hp, hend⟩ := run_bind.mp hrun
  obtain ⟨rfl, hout⟩ := run_ret.mp hend
  obtain ⟨rfl, rfl⟩ := Prod.mk.inj hout
  refine ⟨t.setError d, ?_, Ctx.Twin.session (.unborn hs ht), fun _ _ => rfl⟩
  show Run (x t) _ _
  rw [h t ht]
  exact run_bind.mpr ⟨es₁, u, [], rfl, hp, .ret _⟩

theorem sameCall_blind {x : Cmd Bytes} (h : Blind forgetful (fun _ => False) x) (s : Ctx)
    (d : ErrorDetail) : SameCall x s (s.setError d) := by
  intro es r s' hr
  obtain ⟨t', ht, ⟨d', hl⟩, heq⟩ := h.run s _ ⟨d, rfl⟩ es r s' hr
  refine ⟨t', ht, session_congr (by rw [hl]; rfl), ?_⟩
  rintro rc rfl
  rw [heq fun _ hb => nomatch hb]

/-- A call for a scope does the same in both of two like contexts. -/
theorem ScopedCall.same {cfg : Config} {scope : Bytes} {x : Cmd Bytes} (hx : ScopedCall cfg scope x)
    {s t : Ctx} (h : s.Twin t) : SameCall x s t := by
  induction hx generalizing s t with
  | token =>
    cases h with
    | same d h => exact h ▸ sameCall_blind (Forgetful.ensureToken scope) s d
    | unborn hs ht =>
      exact sameCall_unborn (p := .ask .authNow fun _ => .ret ()) (fun _ => ensureToken_unborn) hs ht
  | request method path jsonBody ov =>
    cases h with
    | same d h => exact h ▸ sameCall_blind (Forgetful.requestRaw ..) s d
    | unborn hs ht =>
      cases hc : cfg.hasTransport with
      | true =>
        exact sameCall_unborn (p := .ask .authNow fun _ => .ret ())
          (fun _ h => requestRaw_unborn h hc) hs ht
      | false =>
        refine sameCall_unborn (p := .ret ()) (c := .arg) (d := ⟨0, none, lit "no transport configured", false⟩)
          (fun s _ => ?_) hs ht
        unfold requestRaw requestRawWith
        rw [if_pos hc]
        rfl
  | cleared x _ ih =>
    have hc : (s.setError .clear).Twin (t.setError .clear) := by
      cases h with
      | same d h => exact .same .clear (by rw [h]; rfl)
      | unborn hs ht => exact .unborn hs ht
    exact ih hc

/-- The calls that set up a session. -/
inductive SessionSetup : Cmd Unit → Prop where
  | login (cfg : Config) (passphrase : Bytes) : SessionSetup (login cfg passphrase)
  | mobile : SessionSetup loginMobile
  | seed (scope token : Bytes) : SessionSetup (authCacheSeed scope token)

/-- What fails to be set up leaves the session as it was. -/
theorem SessionSetup.twin {x : Cmd Unit} (hx : SessionSetup x) (s : Ctx) :
    wp x (fun _ r s' => ∀ rc, r = .error rc → s.Twin s') s := by
  have hquit : ∀ {s₁ : Ctx} (d : ErrorDetail), s.Twin s₁ → s.Twin (s₁.setError d) := by
    intro s₁ d h
    cases h with
    | same d' h => exact .same d (by rw [h]; rfl)
    | unborn hs ht => exact .unborn hs ht
  have hself : s.Twin s := .same s.lastError rfl
  cases hx with
  | login cfg passphrase =>
    show wp (loginMarked cfg .reset passphrase) _ s
    unfold loginMarked
    rw [wp_bind, wp_clearError, wp_bind]
    refine wp_need_of (fun es _ => ?_) fun es d _ _ _ _ => hquit d (hquit _ hself)
    dsimp only
    rw [wp_bind]
    refine wp_needAuth (fun a _ => ?_) (fun es' _ _ => ?_) fun es' d _ _ _ _ => hquit d (hquit _ hself)
    · dsimp only
      rw [wp_bind, wp_modifyCtx]
      exact wp_mark.mpr fun _ hr => nomatch hr
    · dsimp only
      rw [wp_bind, wp_modifyCtx]
      exact wp_mark.mpr fun _ hr => nomatch hr
  | mobile =>
    unfold loginMobile
    rw [wp_bind, wp_clearError, wp_bind]
    refine wp_needAuth (fun a _ => ?_) (fun es _ _ => ?_) fun es d _ _ _ _ => hquit d (hquit _ hself)
    · dsimp only
      rw [wp_bind, wp_modifyCtx]
      exact wp_mark.mpr fun _ hr => nomatch hr
    · dsimp only
      rw [wp_bind, wp_modifyCtx]
      exact wp_mark.mpr fun _ hr => nomatch hr
  | seed scope token =>
    have hstore : ∀ s₁ : Ctx, s.Twin s₁ → wp (do
        let exp ← decodeBearerExp token
        let realExp ← expiryOr exp
        let put ← cachePut scope token (realExp - tokenSkew)
        if put then pure () else outOfMemory) (fun _ r s' => ∀ rc, r = .error rc → s.Twin s') s₁ := by
      intro s₁ h
      rw [wp_bind]
      refine wp_peekClaim_of fun es v _ _ => ?_
      dsimp only
      refine wp_bind_of (wp_expiryOr v s₁) ?_ fun es' rc s₂ h₂ _ _ => h₂ ▸ h
      rintro es' e s₂ rfl
      rw [wp_bind]
      refine wp_cachePut (fun _ _ => ?_) fun _ _ => wp_pure.mpr fun _ hr => nomatch hr
      exact wp_ctxFail_of fun _ d _ _ _ _ _ => hquit d h
    unfold authCacheSeed
    rw [wp_bind]
    refine wp_needAuth (fun a _ => hstore s hself) (fun es hn _ => hstore _ ?_) ?_
    · exact .unborn (.inl hn) (.inr rfl)
    · exact fun es d _ _ _ _ => hquit d hself

/-- An acquisition touches the bearer of its own scope only, and nothing where it fails; a
session that cannot be set up for want of memory leaves the one before as it was, so that
no later call for a scope can tell. -/
theorem acquisition_atomic :
    (∀ cfg scope s, wp (ensureToken cfg scope) (fun _ r s' => s'.others scope = s.others scope ∧
      ∀ rc, r = .error rc → s'.session = s.session) s) ∧
    ∀ x, SessionSetup x → ∀ s, wp x (fun _ r s' => r = .error .nomem → s'.session = s.session ∧
      ∀ cfg scope call, ScopedCall cfg scope call → SameCall call s s' ∧ SameCall call s' s) s := by
  constructor
  · intro cfg scope s
    have hframe : Keeps (framed scope) (ensureToken cfg scope) := Framed.engine.ensureToken rfl
    refine wp_mono (wp_and (hframe.run s) (Atomic.ensureToken.run s)) fun es r s' h => ?_
    exact ⟨h.1, h.2.1⟩
  · intro x hx s
    refine wp_mono (hx.twin s) fun es r s' h hr => ?_
    have htwin : s.Twin s' := h _ hr
    exact ⟨htwin.session, fun cfg scope call hc => ⟨hc.same htwin, hc.same htwin.symm⟩⟩

theorem starved_login_unseen :
    let s := Ctx.loggedIn.setError ⟨0, none, lit "out of memory", false⟩
    s.session = Ctx.loggedIn.session ∧ SameCall (ensureToken .standard (lit "a")) Ctx.loggedIn s := by
  have hrun : Runs (login .standard (lit "new")) Ctx.loggedIn [⟨.alloc, false⟩] (.error .nomem)
      (Ctx.loggedIn.setError ⟨0, none, lit "out of memory", false⟩) := by
    show Run (Prog.ask Op.alloc _) _ _
    exact run_ask.mpr ⟨false, [], rfl, .ret _⟩
  obtain ⟨hs, hc⟩ := acquisition_atomic.2 _ (.login ..) Ctx.loggedIn _ _ _ hrun rfl
  exact ⟨hs, (hc .standard (lit "a") _ .token).1⟩

end EncedoHem
