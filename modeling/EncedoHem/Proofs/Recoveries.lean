import EncedoHem.Proofs.Budget

namespace EncedoHem
open Text Dialogue

/-- A recovery check-in starts. -/
def isRecovery : Event → Bool
  | ⟨.mark (.checkin .recovery), _⟩ => true
  | _ => false

/-- No recovery check-in starts. -/
abbrev unrecovered : Contract Op Ans Ctx := Emits fun e => isRecovery e = false

theorem unrecovered_event {e : Event} (h : ∀ m, e.op ≠ .mark m) : isRecovery e = false := by
  obtain ⟨op, ans⟩ := e
  cases op with
  | mark m => exact absurd rfl (h m)
  | _ => rfl

theorem unrecovered_timed : Timed unrecovered := by
  apply emits_timed
  intro e he
  apply unrecovered_event
  intro m hop
  rw [hop] at he
  cases he

namespace Recoveries
variable {α β : Type} {cfg : Config}

theorem modifyCtx (f : Ctx → Ctx) (n : Nat) : Costs isRecovery n (modifyCtx f) := .free (.modify fun _ => emits_nil) n

theorem ctxFail (rc : Rc) (status : Int) (payload : Option Bytes) (fmt : List Piece) (n : Nat) :
    Costs isRecovery n (ctxFail rc status payload fmt : Cmd α) := .free (unrecovered_timed.ctxFail ..) n

theorem pure (a : α) (n : Nat) : Costs isRecovery n (Pure.pure a : Cmd α) := .free (.pure a) n

theorem throw (rc : Rc) (n : Nat) : Costs isRecovery n (throwRc rc : Cmd α) := .free (.throw rc) n

theorem get : Costs isRecovery 0 getCtx := .free .get 0

theorem need : Costs isRecovery 0 need := .free unrecovered_timed.need 0

theorem clearError : Costs isRecovery 0 clearError := .free unrecovered_timed.clearError 0

theorem send (scope : Option Bytes) (req : Request) : Keeps unrecovered (transportSend scope req) :=
  .ask fun _ _ => emits_single rfl

theorem doSend (scope : Option Bytes) (method : Method) (path : Bytes) (jsonBody bearer : Option Bytes)
    (ov : TlsOverride) (fresh : Bool) (n : Nat) :
    Costs isRecovery n (doSend cfg scope method path jsonBody bearer ov fresh) :=
  .free (unrecovered_timed.doSend fun _ _ => emits_single rfl) n

/-- A check-in counts by its reason alone. -/
theorem checkinRun (why : CheckinReason) :
    Costs isRecovery (if why = .recovery then 1 else 0) (checkinRun cfg why true) := by
  have hsend : ∀ s scope req a, unrecovered.rel s [⟨.send scope req, a⟩] s := fun _ _ _ _ => emits_single rfl
  have hlegs : Keeps unrecovered (checkinLegs cfg true) :=
    unrecovered_timed.checkinLegs (fun _ => emits_nil) (fun s _ _ => hsend s _ _ _) (fun s _ _ _ => hsend s _ _ _)
      fun s _ _ _ => hsend s _ _ _
  have hdone : Keeps unrecovered (mark .checkinDone) := .ask fun _ _ => emits_single rfl
  have hmark : Costs isRecovery (if why = .recovery then 1 else 0) (mark (.checkin why)) := by
    cases why with
    | recovery => exact .ask _
    | explicit => exact .free (.ask fun _ _ => emits_single rfl) 0
    | proactive => exact .free (.ask fun _ _ => emits_single rfl) 0
  apply hmark.before
  intro _
  apply (modifyCtx _ 0).after
  intro _
  apply Costs.after (.attempt (.free (.bind hlegs fun _ => .pure _) 0))
  intro r
  apply (modifyCtx _ 0).after
  intro _
  apply Costs.after (.free hdone 0)
  intro _
  cases r with
  | ok u => exact pure u 0
  | error rc => exact throw rc 0

theorem recoveryCheckin : Costs isRecovery 1 (recoveryCheckin cfg) := checkinRun .recovery

/-- The first dispatch is worth one check-in. -/
theorem recoverCert {resend : Cmd Answer} {path : Bytes} {ov : TlsOverride} {a : Answer}
    (hr : Costs isRecovery 0 resend) : Costs isRecovery 1 (recoverCert cfg (EncedoHem.recoveryCheckin cfg) resend path ov a) := by
  have hquit : ∀ (fmt : List Piece) (rc : Rc), Costs isRecovery 0 (do
      record 0 none fmt
      EncedoHem.modifyCtx fun s => s.setTlsExpired true
      throwRc rc : Cmd Answer) := fun fmt rc =>
    .free (.bind (unrecovered_timed.record ..) fun _ => .bind (unrecovered_timed.setError _) fun _ => .throw _) 0
  apply get.after
  intro s
  cases a with
  | done r => exact pure _ 1
  | failed why expired detail =>
    cases expired with
    | false => exact pure _ 1
    | true =>
      apply Costs.ite
      · exact fun _ => pure _ 1
      · intro _
        apply recoveryCheckin.attempt.before
        intro crc
        cases crc with
        | error rc => exact hquit ..
        | ok u =>
          apply hr.after
          intro a'
          split
          · exact (modifyCtx _ 0).after fun _ => pure _ 0
          · exact hquit ..
          · exact pure _ 0

theorem requestPlain (method : Method) (path : Bytes) (body : Option Bytes) (ov : TlsOverride) :
    Costs isRecovery 1 (requestPlain cfg method path body ov) := by
  apply Costs.ite
  · exact fun _ => ctxFail _ _ _ _ 1
  · intro _
    apply (pure none 0).after
    intro bearer
    apply (doSend _ _ _ _ _ _ _ 0).after
    intro a
    apply (recoverCert (doSend _ _ _ _ _ _ _ 0)).before
    intro a'
    apply Costs.after (.free (unrecovered_timed.requireDone ..) 0)
    intro r
    exact (pure r 0).after fun r => .free (unrecovered_timed.judge ..) 0

theorem requestPlainJson (method : Method) (path : Bytes) (body : Option Bytes) :
    Costs isRecovery 1 (requestPlainJson cfg method path body) :=
  (requestPlain ..).before fun _ => .free (unrecovered_timed.parseBody ..) 0

/-- A fetch that leaves the recovery unspent has not paid for it. -/
theorem fetchChallenge : Pays isRecovery 4 (fetchChallenge cfg false) fun
    | .ok p => if p.2 then 0 else 3
    | .error _ => 0 := by
  apply Pays.bind ((requestPlainJson ..).attempt.pays 3) ?_ fun _ => Nat.zero_le _
  intro r
  apply Pays.bind (get.pays 3) ?_ fun _ => Nat.zero_le _
  intro s
  cases r with
  | ok challenge => exact .pure (Nat.le_refl 3)
  | error rc =>
    apply Pays.ite
    · intro _
      apply Pays.bind (recoveryCheckin.attempt.pays 2) ?_ fun _ => Nat.zero_le _
      intro crc
      cases crc with
      | error rc' =>
        apply Pays.bind (get.pays 2) ?_ fun _ => Nat.zero_le _
        intro s
        exact Pays.bind ((ctxFail _ _ _ _ 0).attempt.pays 2) (fun _ => .pure (Nat.zero_le 2)) fun _ => Nat.zero_le _
      | ok u =>
        exact Pays.bind ((requestPlainJson ..).attempt.pays 1) (fun r => .pure (Nat.zero_le 1)) fun _ => Nat.zero_le _
    · exact fun _ => .pure (Nat.le_refl 3)

theorem fetchChallenge_spent : Costs isRecovery 1 (EncedoHem.fetchChallenge cfg true) := by
  apply (requestPlainJson ..).attempt.before
  intro r
  apply get.after
  intro s
  cases r with
  | ok challenge => exact pure _ 0
  | error rc => exact .ite (fun h => absurd rfl h.2.1) fun _ => pure _ 0

theorem cachePut (scope token : Bytes) (exp : Int) (n : Nat) : Costs isRecovery n (cachePut scope token exp) := by
  have hcalm : ∀ es, Calm es → ∀ e ∈ es, isRecovery e = false := fun es h e he =>
    unrecovered_event fun m hop => by have hq := h e he; rw [hop] at hq; cases hq
  exact .free ⟨fun s => wp_cachePut hcalm hcalm⟩ n

theorem redeemEjwt (scope ejwt : Bytes) (now : Int) : Costs isRecovery 1 (redeemEjwt cfg scope ejwt now) := by
  apply need.after
  intro _
  apply (requestPlainJson ..).before
  intro result
  split
  · exact ctxFail _ _ _ _ 0
  · apply Costs.after (.free (unrecovered_timed.peekClaim ..) 0)
    intro exp
    apply (cachePut _ _ _ 0).after
    intro put
    exact .ite (fun _ => (modifyCtx _ 0).after fun _ => pure _ 0) fun _ => ctxFail _ _ _ _ 0

theorem answerChallenge (scope : Bytes) (now : Int) (challenge : Json) :
    Costs isRecovery 1 (answerChallenge cfg scope now challenge) := by
  have hname : Keeps unrecovered (noteUsername challenge) := by
    unfold noteUsername
    split
    · exact .pure _
    · exact .bind unrecovered_timed.alloc fun _ => .ite (fun _ => .modify fun _ => emits_nil) fun _ => .pure _
  unfold EncedoHem.answerChallenge
  split
  · apply Costs.after (.free hname 0)
    intro _
    split
    · exact ctxFail _ _ _ _ 1
    · apply Costs.after (.attempt (.free (unrecovered_timed.deriveEjwt ..) 0))
      intro ejwt
      split
      · exact ctxFail _ _ _ _ 1
      · exact redeemEjwt ..
  · exact ctxFail _ _ _ _ 1

theorem globalInit : Costs isRecovery 0 globalInit := .free (unrecovered_timed.ask rfl) 0

theorem acquireToken (scope : Bytes) (now : Int) : Pays isRecovery 5 (acquireToken cfg scope now false) fun
    | .ok a => if a.spent then 0 else 3
    | .error _ => 0 := by
  apply Pays.bind (globalInit.pays 5) ?_ fun _ => Nat.zero_le _
  intro init
  cases init with
  | error rc => exact Pays.bind ((ctxFail _ _ _ _ 0).attempt.pays 5) (fun r => .pure (by simp)) fun _ => Nat.zero_le _
  | ok u =>
    apply Pays.bind (fetchChallenge.frame 1) ?_ fun _ => Nat.zero_le _
    intro p
    obtain ⟨r, spent⟩ := p
    cases r with
    | error rc => exact .pure (Nat.le_add_right _ 1)
    | ok challenge =>
      have hpost : Costs isRecovery 1 (EncedoHem.answerChallenge cfg scope now challenge).attempt :=
        (answerChallenge ..).attempt
      apply Pays.bind ((hpost.pays (if spent then 0 else 3)).mono ?_ fun _ => Nat.le_refl _)
        (fun r => .pure (Nat.le_refl _)) fun _ => Nat.zero_le _
      exact Nat.le_of_eq (Nat.add_comm ..)

theorem acquireToken_spent (scope : Bytes) (now : Int) :
    Costs isRecovery 2 (EncedoHem.acquireToken cfg scope now true) := by
  apply globalInit.after
  intro init
  cases init with
  | error rc => exact (ctxFail _ _ _ _ 0).attempt.after fun _ => pure _ 2
  | ok u =>
    apply Costs.bind_le (m := 1) fetchChallenge_spent ?_ (Nat.le_refl 2)
    intro p
    obtain ⟨r, spent⟩ := p
    cases r with
    | error rc => exact pure _ 1
    | ok challenge => exact (answerChallenge ..).attempt.before fun r => pure _ 0

theorem recoverDrift (scope : Bytes) (a : Acquired) :
    Costs isRecovery (if a.spent then 0 else 3) (recoverDrift cfg scope a) := by
  generalize hn : (if a.spent then 0 else 3) = n
  apply get.after
  intro s
  split
  · apply Costs.ite
    · intro h
      rw [← hn, if_neg h.2.2.1]
      apply Costs.bind_le (m := 2) recoveryCheckin.attempt ?_ (Nat.le_refl 3)
      intro crc
      cases crc with
      | ok u =>
        apply Costs.after (.free (.ask fun _ _ => emits_single rfl) 0)
        intro now
        exact (acquireToken_spent ..).before fun _ => pure _ 0
      | error rc => exact get.after fun s => (ctxFail _ _ _ _ 2).attempt
    · exact fun _ => pure _ _
  · exact pure _ _

theorem mark {m : Mark} (h : m ≠ .checkin .recovery) (n : Nat) : Costs isRecovery n (mark m) := by
  refine .free (.ask fun _ _ => emits_single ?_) n
  cases m with
  | checkin why =>
    cases why with
    | recovery => exact absurd rfl h
    | _ => rfl
  | _ => rfl

theorem proactiveCheckin : Costs isRecovery 0 (proactiveCheckin cfg) := by
  apply get.after
  intro s
  apply Costs.ite
  · intro _
    apply (modifyCtx _ 0).after
    intro _
    apply (checkinRun .proactive).attempt.after
    intro r
    split
    · exact pure _ 0
    · exact pure _ 0
  · exact fun _ => pure _ 0

/-- The check-ins of a passphrase session: one for every request of the two runs of the flow, and one for the clock. -/
theorem acquirePassphrase (scope : Bytes) (now : Int) : Costs isRecovery 5 (acquirePassphrase cfg scope now) := by
  apply (mark (by simp) 0).after
  intro _
  apply proactiveCheckin.after
  intro failed
  apply Pays.bind (acquireToken scope now) ?_ fun _ => Nat.zero_le _
  intro a
  apply (recoverDrift scope a).before
  intro r
  apply Costs.after (.free (Neutral.liftRc r) 0)
  intro token
  apply Costs.after (.ite (fun _ => modifyCtx _ 0) fun _ => pure _ 0)
  intro _
  exact (mark (by simp) 0).after fun _ => pure _ 0

/-- Nothing a broker answers is worth a check-in to the exchange itself. -/
theorem notifySend (method : Method) (url : Option Bytes) (subpath : Bytes) (body : Option Bytes) :
    Keeps unrecovered (notifySend cfg method url subpath body) :=
  unrecovered_timed.notifySend fun _ _ _ => emits_single rfl

theorem notifySendJson (method : Method) (url : Option Bytes) (subpath : Bytes) (body : Option Bytes) :
    Keeps unrecovered (notifySendJson cfg method url subpath body) := by
  apply Keeps.bind (notifySend ..)
  intro p
  obtain ⟨status, body⟩ := p
  cases body with
  | none => exact unrecovered_timed.ctxFail ..
  | some b =>
    apply Keeps.bind (unrecovered_timed.parseJson b)
    intro root
    split
    · exact unrecovered_timed.ctxFail ..
    · exact .pure _

theorem notifySession (url eid : Option Bytes) : Keeps unrecovered (notifySession cfg url eid) := by
  apply Keeps.bind unrecovered_timed.clearError
  intro _
  apply Keeps.bind
  · cases eid with
    | none => exact .pure _
    | some eid => exact .bind (unrecovered_timed.printObject _) fun _ => .pure _
  · exact fun _ => .bind (notifySendJson ..) fun _ => unrecovered_timed.brokerStr ..

theorem notifyEventNew (url : Option Bytes) (authreq epk : Bytes) :
    Keeps unrecovered (notifyEventNew cfg url authreq epk) :=
  .bind unrecovered_timed.clearError fun _ => .bind (unrecovered_timed.printObject _) fun _ =>
    .bind (notifySendJson ..) fun _ => unrecovered_timed.brokerStr ..

theorem notifyEventCheck (url : Option Bytes) (eventid : Bytes) :
    Keeps unrecovered (notifyEventCheck cfg url eventid) := by
  have hpoll : ∀ what stem id tooLong, Keeps unrecovered (notifyPoll cfg what stem id url tooLong) := by
    intro what stem id tooLong
    unfold notifyPoll
    split
    · exact unrecovered_timed.ctxFail ..
    · apply Keeps.bind (notifySend ..)
      intro p
      apply Keeps.bind unrecovered_timed.need
      intro _
      apply Keeps.ite (fun _ => .pure _)
      intro _
      apply Keeps.bind
      · unfold parseOptional
        split
        · exact .pure _
        · exact unrecovered_timed.parseJson _
      · intro root
        split
        · exact unrecovered_timed.ctxFail ..
        · exact .pure _
  apply Keeps.bind unrecovered_timed.clearError
  intro _
  apply Keeps.bind (hpoll ..)
  intro polled
  split
  · exact .pure _
  · apply Keeps.ite (fun _ => .pure _)
    intro _
    split
    · exact unrecovered_timed.ctxFail ..
    · exact .bind unrecovered_timed.need fun _ => .pure _

/-- Both posts of the pair may meet an expired certificate, and the clock may be unset between them. -/
theorem extLoginPost (path body : Bytes) : Costs isRecovery 3 (extLoginPost cfg path body) := by
  apply Costs.bind_le (m := 2) (requestPlainJson ..).attempt ?_ (Nat.le_refl 3)
  intro r
  apply get.after
  intro s
  cases r with
  | ok root => exact pure root 2
  | error rc =>
    apply Costs.ite
    · intro _
      apply Costs.bind_le (m := 1) recoveryCheckin.attempt ?_ (Nat.le_refl 2)
      intro crc
      cases crc with
      | error rc' => exact get.after fun s => ctxFail _ _ _ _ 1
      | ok u => exact requestPlainJson ..
    · exact fun _ => throw rc 2

theorem extRequest (epk scope : Bytes) (ctxStr note : Option Bytes) :
    Costs isRecovery 3 (extRequest cfg epk scope ctxStr note) := by
  have hstr : ∀ root what key, Costs isRecovery 0 (reqStr root what key) := fun _ _ _ =>
    .free (unrecovered_timed.reqStr ..) 0
  apply clearError.after
  intro _
  apply Costs.ite (fun _ => ctxFail _ _ _ _ 3); intro _
  apply Costs.ite (fun _ => ctxFail _ _ _ _ 3); intro _
  apply Costs.ite (fun _ => ctxFail _ _ _ _ 3); intro _
  apply Costs.ite (fun _ => ctxFail _ _ _ _ 3); intro _
  apply Costs.after (.free (unrecovered_timed.printObject _) 0)
  intro body
  apply (extLoginPost ..).before
  intro root
  apply need.after
  intro _
  exact (hstr ..).after fun _ => (hstr ..).after fun _ => pure _ 0

theorem extToken (authreply : Bytes) : Costs isRecovery 3 (extToken cfg authreply) := by
  apply clearError.after
  intro _
  apply Costs.ite (fun _ => ctxFail _ _ _ _ 3); intro _
  apply Costs.after (.free (unrecovered_timed.printObject _) 0)
  intro body
  apply (extLoginPost ..).attempt.before
  intro r
  apply get.after
  intro s
  cases r with
  | error rc =>
    apply Costs.ite (fun _ => ctxFail _ _ _ _ 0); intro _
    exact .ite (fun _ => ctxFail _ _ _ _ 0) fun _ => throw rc 0
  | ok root =>
    dsimp only
    split
    · exact ctxFail _ _ _ _ 0
    · exact need.after fun _ => pure _ 0

theorem confirmFirePush (url : Option Bytes) (scope : Bytes) (ctxStr note : Option Bytes) :
    Costs isRecovery 3 (confirmFirePush cfg url scope ctxStr note) := by
  apply Costs.after (.attempt (.free (notifySession ..) 0))
  intro session
  cases session with
  | error rc => exact pure _ 3
  | ok epk =>
    apply (extRequest ..).attempt.before
    intro req
    cases req with
    | error rc => exact pure _ 0
    | ok reqi => exact .after (.attempt (.free (notifyEventNew ..) 0)) fun _ => pure _ 0

theorem recoverPush (url : Option Bytes) (scope : Bytes) (ctxStr note : Option Bytes) (push : Push) :
    Costs isRecovery 4 (recoverPush cfg url scope ctxStr note push) := by
  apply get.after
  intro s
  split
  · apply Costs.ite
    · intro _
      apply Costs.after (.free (unrecovered_timed.authreqDrift _) 0)
      intro drift
      apply Costs.ite
      · intro _
        apply Costs.bind_le (m := 3) recoveryCheckin.attempt ?_ (Nat.le_refl 4)
        intro crc
        cases crc with
        | ok u => exact (confirmFirePush ..).before fun _ => pure _ 0
        | error rc => exact pure _ 3
      · exact fun _ => pure _ 4
    · exact fun _ => pure _ 4
  · exact pure _ 4

/-- Two pushes and the clock between them. -/
theorem confirmBegin (url : Option Bytes) (scope : Bytes) (ctxStr note : Option Bytes) :
    Costs isRecovery 7 (confirmBegin cfg url scope ctxStr note) := by
  apply Costs.after (.free (unrecovered_timed.newConfirm ..) 0)
  intro c
  apply Costs.bind_le (m := 4) (confirmFirePush ..) ?_ (Nat.le_refl 7)
  intro push
  apply (recoverPush ..).before
  intro outcome
  cases outcome with
  | error rc => exact throw rc 0
  | ok eventid =>
    apply Costs.after (.ite (fun _ => .free (unrecovered_timed.ask rfl) 0) fun _ => pure _ 0)
    exact fun _ => pure _ 0

theorem authCacheSeed (scope token : Bytes) : Costs isRecovery 0 (authCacheSeed scope token) := by
  have hauth : Keeps unrecovered needAuth := by
    apply Keeps.bind .get
    intro s
    split
    · exact .pure _
    · exact .bind unrecovered_timed.need fun _ => .bind (.modify fun _ => emits_nil) fun _ => .pure _
  apply Costs.after (.free hauth 0)
  intro _
  apply Costs.after (.free (unrecovered_timed.peekClaim ..) 0)
  intro exp
  apply Costs.after (.free (unrecovered_timed.expiryOr exp) 0)
  intro realExp
  apply (cachePut _ _ _ 0).after
  intro put
  exact .ite (fun _ => pure _ 0) fun _ => .free unrecovered_timed.outOfMemory 0

theorem confirmRedeem (scope authreply : Bytes) : Costs isRecovery 3 (confirmRedeem cfg scope authreply) := by
  apply (mark (by simp) 0).after
  intro _
  apply (extToken _).before
  intro token
  exact (authCacheSeed _ _).after fun _ => pure _ 0

theorem yields_confirmRedeem (scope authreply : Bytes) :
    Yields (EncedoHem.confirmRedeem cfg scope authreply) (· ≠ .pending) :=
  .bind fun _ => .bind fun _ => .bind fun _ => .pure (by simp)

/-- What a poll leaves of the credits of its handle: all of them while the handle is pending. -/
def pollLeft : Except Rc (Except Rc ConfirmStatus × Confirm) → Nat
  | .ok (.ok .pending, _) => 3
  | _ => 0

theorem settled {x : Cmd ConfirmStatus} {c : Confirm} {n : Nat} (hx : Costs isRecovery n x) (hv : Yields x (· ≠ .pending)) :
    Pays isRecovery n (x.attempt >>= fun r => Pure.pure (r, c)) pollLeft := by
  have hleft : Pays isRecovery n x.attempt fun r => match r with
      | .ok r => pollLeft (.ok (r, c))
      | .error _ => 0 := by
    apply Pays.yields hx.attempt hv.attempt
    · intro r hr
      cases r with
      | error rc => exact Nat.le_refl 0
      | ok st =>
        cases st with
        | approved => exact Nat.le_refl 0
        | pending => exact absurd rfl (hr _ rfl)
    · exact fun _ => Nat.le_refl 0
  exact hleft.bind (fun r => .pure (Nat.le_refl _)) fun _ => Nat.le_refl 0

/-- A poll that leaves its handle pending has cost nothing. -/
theorem confirmPoll (c : Confirm) : Pays isRecovery 3 (confirmPoll cfg c) pollLeft := by
  have hcheck : Costs isRecovery 0 (confirmCheck cfg c) := by
    unfold confirmCheck
    split
    · exact throw _ 0
    · exact .free (notifyEventCheck ..) 0
  have hrefused : ∀ (rc : Rc) (fmt : List Piece),
      Yields (EncedoHem.ctxFail rc 0 none fmt : Cmd ConfirmStatus) (· ≠ .pending) := fun rc fmt => yields_ctxFail ..
  apply Pays.ite
  · exact fun _ => settled (ctxFail _ _ _ _ 3) (hrefused ..)
  · intro _
    apply Pays.bind (hcheck.attempt.pays 3) ?_ fun _ => Nat.zero_le _
    intro polled
    split
    · exact .pure (Nat.zero_le 3)
    · exact .pure (Nat.le_refl 3)
    · exact settled (ctxFail _ _ _ _ 3) (hrefused ..)
    · exact settled (confirmRedeem ..) (yields_confirmRedeem ..)

/-- Only the poll that ends the wait costs anything: induction on the rounds. -/
theorem confirmWaitLoop (timeoutMs : Int) (rounds : Nat) (elapsed : Int) (c : Confirm) :
    Costs isRecovery 3 (confirmWaitLoop cfg timeoutMs rounds elapsed c) := by
  induction rounds generalizing elapsed c with
  | zero => exact pure _ 3
  | succ rounds ih =>
    apply Pays.bind (confirmPoll c) ?_ fun _ => Nat.zero_le _
    intro p
    obtain ⟨r, c'⟩ := p
    cases r with
    | error rc => exact pure _ _
    | ok st =>
      cases st with
      | approved => exact pure _ _
      | pending =>
        apply Costs.ite
        · exact fun _ => (ctxFail _ _ _ _ 3).attempt.before fun _ => pure _ 0
        · intro _
          exact Costs.after (.free (unrecovered_timed.sleepMs _) 0) fun _ => ih ..

theorem confirmWait (c : Confirm) (timeoutMs : Int) : Costs isRecovery 3 (confirmWait cfg c timeoutMs) :=
  .ite (fun _ => pure _ 3) fun _ => confirmWaitLoop ..

/-- The check-ins of a mobile session: seven for the push and three for the redemption. -/
theorem acquireMobile (scope : Bytes) : Costs isRecovery 10 (acquireMobile cfg scope) := by
  apply (mark (by simp) 0).after
  intro _
  apply proactiveCheckin.after
  intro _
  apply Costs.bind_le (m := 3) (confirmBegin none scope none none) ?_ (Nat.le_refl 10)
  intro c
  apply (confirmWait ..).before
  intro p
  obtain ⟨r, c'⟩ := p
  apply Costs.after (.free (Neutral.liftRc r) 0)
  intro _
  apply get.after
  intro s
  split
  · exact ctxFail _ _ _ _ 0
  · exact (mark (by simp) 0).after fun _ => pure _ 0

end Recoveries

/-- What one acquisition may need in the way of recoveries. -/
def Ctx.recoveriesDue (s : Ctx) : Nat := if s.auth.any (·.mobile) then 10 else 5

section
variable {cfg : Config}

theorem wp_ensureToken_recoveries (scope : Bytes) (s : Ctx) :
    wp (ensureToken cfg scope) (fun es _ _ => es.countP isRecovery ≤ s.recoveriesDue) s := by
  have hrest : ∀ {x : Cmd Bytes} {now : Int}, Costs isRecovery s.recoveriesDue x →
      wp x (fun es _ _ => (([⟨.authNow, now⟩] : List Event) ++ es).countP isRecovery ≤ s.recoveriesDue) s := by
    intro x now hx
    refine wp_mono (hx.run s) fun es _ _ h => ?_
    rw [List.countP_append]
    exact (Nat.zero_add _).symm ▸ h
  unfold ensureToken
  rw [wp_bind, wp_authNow]
  intro now
  dsimp only
  rw [wp_bind, wp_getCtx]
  dsimp only
  split
  · exact hrest (Costs.after (Recoveries.mark (by simp) 0) fun _ => Recoveries.pure _ _)
  · split
    · rename_i a ha
      cases hm : a.mobile with
      | true =>
        have hdue : s.recoveriesDue = 10 := by simp [Ctx.recoveriesDue, ha, hm]
        simp only [↓reduceIte]
        exact hrest (hdue ▸ Recoveries.acquireMobile scope)
      | false =>
        have hdue : s.recoveriesDue = 5 := by simp [Ctx.recoveriesDue, ha, hm]
        simp only [Bool.false_eq_true, ↓reduceIte]
        split
        · exact hrest (hdue ▸ Recoveries.acquirePassphrase scope now)
        · exact hrest (Recoveries.ctxFail _ _ _ _ _)
    · exact hrest (Recoveries.ctxFail _ _ _ _ _)

theorem recoveriesDue_kept {s s' : Ctx} (h : s'.auth.any (·.mobile) = s.auth.any (·.mobile)) :
    s'.recoveriesDue = s.recoveriesDue := by
  simp [Ctx.recoveriesDue, h]

theorem wp_retryAuth_recoveries (method : Method) (path : Bytes) (body : Option Bytes) (scope : Bytes)
    (ov : TlsOverride) (r : Response) (s : Ctx) :
    wp (retryAuth (ensureToken cfg) (fun bearer => doSend cfg (some scope) method path body bearer ov true)
      path (some scope) r) (fun es _ _ => es.countP isRecovery ≤ s.recoveriesDue) s := by
  unfold retryAuth
  dsimp only
  rw [wp_ite]
  split
  · exact wp_pure.mpr (Nat.zero_le _)
  · have hinvalid : Keeps modeKept (authInvalidate scope) := modeKept_modifyAuth fun _ => rfl
    have hinv := hinvalid.run s
    unfold authInvalidate modifyAuth at hinv ⊢
    rw [wp_modifyCtx] at hinv
    rw [wp_bind, wp_modifyCtx]
    dsimp only
    rw [← recoveriesDue_kept hinv.1]
    refine wp_bind_of (wp_ensureToken_recoveries scope _) (fun es token s₁ h => ?_) fun es rc s₁ h => by simpa using h
    refine wp_mono (Costs.run (k := isRecovery) (n := 0) ?_ s₁) fun es' _ _ h' => ?_
    · apply Costs.after (.after Recoveries.need fun _ => Recoveries.pure _ 0)
      intro bearer
      apply (Recoveries.doSend _ _ _ _ _ _ _ 0).after
      intro a
      cases a with
      | done r' => exact Recoveries.pure _ 0
      | failed why expired detail => exact Recoveries.ctxFail _ _ _ _ 0
    · rw [List.nil_append, List.countP_append]
      omega

/-- One recovery of the request's own, and what a second acquisition may need. -/
theorem wp_exchange_recoveries (method : Method) (path : Bytes) (body : Option Bytes) (scope : Bytes)
    (bearer : Option Bytes) (ov : TlsOverride) (s : Ctx) :
    wp (exchangeWith cfg (ensureToken cfg) (recoveryCheckin cfg) method path body (some scope) ov bearer)
      (fun es _ _ => es.countP isRecovery ≤ s.recoveriesDue + 1) s := by
  have hkeep : Keeps modeKept (do
      let a ← doSend cfg (some scope) method path body bearer ov false
      recoverCert cfg (recoveryCheckin cfg) (doSend cfg (some scope) method path body bearer ov true) path ov a) := by
    have he := modeKept_authOnly.timed
    have hsend : ∀ fresh, Keeps modeKept (doSend cfg (some scope) method path body bearer ov fresh) :=
      fun fresh => he.doSend fun _ _ => ⟨rfl, id⟩
    exact .bind (hsend false) fun a =>
      he.recoverCert (fun _ => ⟨rfl, id⟩) (fun _ => modeKept_authOnly.checkinRun _) (hsend true)
  have hcost : Costs isRecovery 1 (do
      let a ← doSend cfg (some scope) method path body bearer ov false
      recoverCert cfg (recoveryCheckin cfg) (doSend cfg (some scope) method path body bearer ov true) path ov a) :=
    (Recoveries.doSend _ _ _ _ _ _ _ 0).after fun a => Recoveries.recoverCert (Recoveries.doSend _ _ _ _ _ _ _ 0)
  have hassoc : exchangeWith cfg (ensureToken cfg) (recoveryCheckin cfg) method path body (some scope) ov bearer =
      (do
        let a ← doSend cfg (some scope) method path body bearer ov false
        recoverCert cfg (recoveryCheckin cfg) (doSend cfg (some scope) method path body bearer ov true) path ov a) >>=
      fun a => requireDone path a >>= fun r =>
        retryAuth (ensureToken cfg) (fun bearer => doSend cfg (some scope) method path body bearer ov true)
          path (some scope) r >>= fun r => judge path r := by
    simp only [Cmd.bind_assoc]
    rfl
  rw [hassoc]
  refine wp_bind_of (wp_and (hcost.run s) (hkeep.run s)) (fun es a s₁ h => ?_) fun es rc s₁ h => Nat.le_trans h.1 (Nat.le_add_left ..)
  obtain ⟨hone, hmode, -⟩ := h
  rw [← recoveriesDue_kept hmode]
  have hdone : wp (requireDone path a) (fun es _ s₂ => es.countP isRecovery = 0 ∧ modeKept.rel s₁ es s₂) s₁ := by
    have hfree : Costs isRecovery 0 (requireDone path a) := .free (unrecovered_timed.requireDone ..) 0
    have hkept : Keeps modeKept (requireDone path a) := modeKept_authOnly.timed.requireDone ..
    exact wp_mono (wp_and (hfree.run s₁) (hkept.run s₁)) fun _ _ _ h => ⟨Nat.le_zero.mp h.1, h.2⟩
  refine wp_bind_of hdone (fun es' r s₂ h => ?_) fun es' rc s₂ h => ?_
  · obtain ⟨hzero, hmode', -⟩ := h
    rw [← recoveriesDue_kept hmode']
    refine wp_bind_of (wp_retryAuth_recoveries method path body scope ov r s₂) (fun es'' r' s₃ h => ?_) fun es'' rc s₃ h => ?_
    · have hjudge : Costs isRecovery 0 (judge path r') := .free (unrecovered_timed.judge ..) 0
      refine wp_mono (hjudge.run s₃) fun es₃ _ _ h' => ?_
      simp only [List.countP_append]
      omega
    · simp only [List.countP_append]
      omega
  · rw [List.countP_append]
    omega

end

/-- One acquisition starts five recovery check-ins at most in a passphrase session and ten in a mobile one, for there
is no budget common to certificate and clock: every request of the flow may need one for the certificate, besides the
one that sets the clock. A request has one of its own, besides those of its two acquisitions. -/
theorem recoveries_bounded (cfg : Config) (s : Ctx) :
    (∀ method path body ov, wp (requestRaw cfg method path body none ov) (fun es _ _ => es.countP isRecovery ≤ 1) s) ∧
    (∀ scope, wp (ensureToken cfg scope) (fun es _ _ => es.countP isRecovery ≤ s.recoveriesDue) s) ∧
    ∀ method path body scope ov, wp (requestRaw cfg method path body (some scope) ov)
      (fun es _ _ => es.countP isRecovery ≤ 2 * s.recoveriesDue + 1) s := by
  refine ⟨fun method path body ov => ?_, fun scope => wp_ensureToken_recoveries scope s, fun method path body scope ov => ?_⟩
  · rw [← requestPlain_eq]
    exact (Recoveries.requestPlain method path body ov).run s
  · unfold requestRaw requestRawWith
    rw [wp_ite]
    split
    · exact (Recoveries.ctxFail _ _ _ _ _ : Costs isRecovery _ (ctxFail .arg 0 none _ : Cmd Bytes)).run s
    · have hkept : Keeps modeKept (acquireBearer (ensureToken cfg) (some scope)) :=
        .bind ((modeKept_engine cfg).ensureToken trivial) fun _ =>
          .bind (.bind modeKept_authOnly.timed.need fun _ => .pure _) fun _ => .pure _
      have hbearer : wp (acquireBearer (ensureToken cfg) (some scope))
          (fun es _ _ => es.countP isRecovery ≤ s.recoveriesDue) s := by
        refine wp_bind_of (wp_ensureToken_recoveries scope s) (fun es token s₁ h => ?_) fun _ _ _ h => h
        have hmake : Costs isRecovery 0 (makeBearer token >>= fun b => pure (some b)) :=
          .after (.after Recoveries.need fun _ => Recoveries.pure _ 0) fun _ => Recoveries.pure _ 0
        refine wp_mono (hmake.run s₁) fun es' _ _ h' => ?_
        rw [List.countP_append]
        omega
      refine wp_bind_of (wp_and hbearer (hkept.run s)) (fun es bearer s₁ h => ?_) fun es rc s₁ h => ?_
      · obtain ⟨hdue, hmode, -⟩ := h
        have hsame := recoveriesDue_kept hmode
        refine wp_mono (wp_exchange_recoveries method path body scope bearer ov s₁) fun es' _ _ h' => ?_
        rw [List.countP_append]
        omega
      · have := h.1
        omega

/-- A check-in that every party goes along with. -/
def goodLegs : List Answer := [.object [], .object [], .object []]

/-- A request that is answered so in the end, after a device with an expired certificate got a new one. -/
def renewed (a : Answer) : List Answer := [.expired] ++ goodLegs ++ [a]

/-- A device that serves the old certificate again and again, and the clock of which is off. -/
def strainedLogin : List Answer :=
  let challenge : Answer := .object [("eid", .str (lit "e")),
    ("spk", .str (lit "AAAAAAAAAAAAAAAAAAAAAAAAAAAAAAAAAAAAAAAAAAA=")), ("jti", .str (lit "j")), ("exp", .int 1000)]
  renewed challenge ++ renewed (.status 401) ++ goodLegs ++
    renewed challenge ++ renewed (.object [("token", .str (lit "t"))])

/-- The same device, to which the authenticator's reply goes. -/
def strainedPush : List Answer :=
  let session : Answer := .object [("epk", .str (lit "AAAAAAAAAAAAAAAAAAAAAAAAAAAAAAAAAAAAAAAAAAA="))]
  let request : Answer := .object [("authreq", .str (lit "h.eyJpYXQiOjEwMH0.s")), ("epk", .str (lit "k"))]
  let post : Answer → List Answer := fun a => renewed (.status 403) ++ goodLegs ++ renewed a
  [session] ++ post request ++ [.status 401] ++ goodLegs ++ [session] ++ post request ++
    [.object [("eventid", .str (lit "e"))], .object [("authreply", .str (lit "r"))]] ++
    post (.object [("token", .str (lit "t"))])

/-- Both bounds are reached, by acquisitions that succeed. -/
theorem recoveries_reached :
    let x := ensureToken .standard (lit "a")
    (scriptEvents x .loggedIn 5 strainedLogin).countP isRecovery ≤ 5 ∧
      (scriptEvents x .loggedIn 5 strainedLogin).countP isRecovery = 5 ∧
      scriptResult x .loggedIn 5 strainedLogin = .ok (lit "t") ∧
      (scriptEvents x .mobile 5 strainedPush).countP isRecovery = 10 ∧
      scriptResult x .mobile 5 strainedPush = .ok (lit "t") :=
  ⟨(recoveries_bounded .standard .loggedIn).2.1 (lit "a") _ _ _ (script_runs _ _ 5 strainedLogin),
    by decide +kernel, by decide +kernel, by decide +kernel, by decide +kernel⟩

end EncedoHem
