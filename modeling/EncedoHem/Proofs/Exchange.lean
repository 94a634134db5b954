import EncedoHem.Proofs.CheckinLegs

namespace EncedoHem
open Text Dialogue

/-- An expired certificate starts a check-in only where the context lets it. -/
def Recovers (cfg : Config) (s : Ctx) : Prop := cfg.noAutoCheckin = false ∧ s.inCheckin = false

/-- What the dispatches of one request can come to, certificate recovery included:
the answer of a single one, a check-in that leads nowhere, or a second one's answer. -/
inductive Tried (cfg : Config) (s : Ctx) (scope : Option Bytes) (req : Bool → Request) :
    List Event → Option Answer → Prop where
  | unsent (h : cfg.hasTransport = false) : Tried cfg s scope req [] none
  | once (a : Answer) (h : a.isExpired = true → ¬Recovers cfg s) :
      Tried cfg s scope req (pause cfg ++ [⟨.send scope (req false), a⟩]) (some a)
  | stuck (why : SendFailure) (detail : Bytes) (check : List Event) (h : Recovers cfg s)
      (hc : CheckinEvents .recovery check) :
      Tried cfg s scope req
        (pause cfg ++ [⟨.send scope (req false), .failed why true detail⟩] ++ check) none
  | resent (why : SendFailure) (detail : Bytes) (check : List Event) (a : Answer)
      (h : Recovers cfg s) (hc : CheckinEvents .recovery check) (last : Option Answer)
      (hl : last = some a ∨ (last = none ∧ a.isExpired = true)) :
      Tried cfg s scope req
        (pause cfg ++ [⟨.send scope (req false), .failed why true detail⟩] ++ check ++
          (pause cfg ++ [⟨.send scope (req true), a⟩])) last

/-- The dispatches end with an answer to go on with, or in a failure on record. -/
def Settled (s : Ctx) (last : Option Answer) (r : Except Rc Answer) (s' : Ctx) : Prop :=
  match r with
  | .ok a => last = some a ∧ s'.lastError = s.lastError
  | .error rc => last = none ∧ rc.ofTransport ∧ s'.lastError.httpStatus = 0

theorem wp_tried {cfg : Config} {s : Ctx} (scope : Option Bytes) (method : Method)
    (path : Bytes) (body bearer : Option Bytes) :
    wp (do
        let a ← doSend cfg scope method path body bearer .default false
        recoverCert cfg (recoveryCheckin cfg)
          (doSend cfg scope method path body bearer .default true) path .default a)
      (fun es r s' => s.Untouched s' ∧ ∃ last,
        Tried cfg s scope (buildRequest cfg method path body bearer .default) es last ∧
        Settled s last r s') s := by
  rw [wp_bind, wp_doSend]
  intro a
  unfold recoverCert
  dsimp only
  rw [wp_bind, wp_getCtx]
  have hpass : (a.isExpired = true → ¬Recovers cfg s) →
      wp (pure a) (fun es r s' => s.Untouched s' ∧ ∃ last,
        Tried cfg s scope (buildRequest cfg method path body bearer .default)
          (pause cfg ++ [⟨.send scope (buildRequest cfg method path body bearer .default false), a⟩] ++
            ([] ++ es)) last ∧ Settled s last r s') s := by
    intro hr
    rw [wp_pure, List.append_nil, List.append_nil]
    exact ⟨.refl s, some a, .once a hr, rfl, rfl⟩
  cases a with
  | done r => exact hpass fun h => nomatch h
  | failed why expired detail =>
    cases expired with
    | false => exact hpass fun h => nomatch h
    | true =>
      dsimp only
      rw [wp_ite]
      split
      · rename_i hg
        refine hpass fun _ hr => ?_
        obtain ⟨hn, hi⟩ := hr
        simp [hn, hi] at hg
      · rename_i hg
        simp only [not_or, ne_eq, not_not, Bool.not_eq_true] at hg
        have hr : Recovers cfg s := ⟨hg.1, hg.2.1⟩
        rw [wp_bind, wp_attempt]
        refine wp_mono (wp_checkinRun cfg .recovery s) fun check crc s₁ hc => ?_
        have hf : s.Untouched s₁ :=
          ⟨hc.frame.auth, hc.frame.inCheckin.trans hr.2.symm, hc.frame.latch, hc.frame.handles⟩
        cases crc with
        | error rc =>
          dsimp only
          simp only [wp_bind, wp_record, wp_modifyCtx, wp_throwRc, recordEvents, List.append_nil,
            List.nil_append]
          intro copied
          exact ⟨(hf.setError _).setError _, none, .stuck why detail check hr hc.events, rfl,
            ⟨why, rfl⟩, rfl⟩
        | ok u =>
          dsimp only
          rw [wp_bind, wp_doSend]
          intro a'
          have hresent : ∀ last, last = some a' ∨ (last = none ∧ a'.isExpired = true) →
              Tried cfg s scope (buildRequest cfg method path body bearer .default)
                (pause cfg ++
                  [⟨.send scope (buildRequest cfg method path body bearer .default false),
                    .failed why true detail⟩] ++
                  (check ++ (pause cfg ++
                    [⟨.send scope (buildRequest cfg method path body bearer .default true), a'⟩])))
                last := by
            intro last hl
            rw [← List.append_assoc]
            exact .resent why detail check a' hr hc.events last hl
          have hsp : s₁.lastError = s.lastError := hc.spared u rfl
          cases a' with
          | done r' =>
            simp only [wp_bind, wp_modifyCtx, wp_pure, List.append_nil, List.nil_append]
            exact ⟨hf.refreshed true, some (.done r'), hresent _ (.inl rfl), rfl, hsp⟩
          | failed why' expired' detail' =>
            cases expired' with
            | true =>
              simp only [wp_bind, wp_record, wp_modifyCtx, wp_throwRc, recordEvents,
                List.append_nil, List.nil_append]
              intro copied
              exact ⟨(hf.setError _).setError _, none, hresent _ (.inr ⟨rfl, rfl⟩), rfl, ⟨why, rfl⟩, rfl⟩
            | false =>
              simp only [wp_pure, List.append_nil, List.nil_append]
              exact ⟨hf, some (.failed why' false detail'), hresent _ (.inl rfl), rfl, hsp⟩

/-- What a request without a scope makes of the answer it was left with. -/
inductive Verdict (s : Ctx) : Option Answer → List Event → Except Rc Bytes → Ctx → Prop where
  | good (r : Response) (b : Bytes) (s' : Ctx) (hf : r.fault = none) (hb : r.body = some b)
      (he : s'.lastError = s.lastError) : Verdict s (some (.done r)) [] (.ok (cstr b)) s'
  | bad (r : Response) (rest : List Event) (rc : Rc) (s' : Ctx) (hf : r.fault = some rc)
      (he : s'.lastError.httpStatus = r.status) : Verdict s (some (.done r)) rest (.error rc) s'
  | lost (last : Option Answer) (rest : List Event) (rc : Rc) (s' : Ctx)
      (hl : ∀ r, last ≠ some (.done r)) (hr : rc.ofTransport)
      (he : s'.lastError.httpStatus = 0) : Verdict s last rest (.error rc) s'

/-- All that a request without a scope does: its dispatches, and the verdict on them. -/
structure Asked (cfg : Config) (method : Method) (path : Bytes) (body : Option Bytes) (s : Ctx)
    (es : List Event) (r : Except Rc Bytes) (s' : Ctx) : Prop where
  frame : s.Untouched s'
  run : ∃ sent rest last, es = sent ++ rest ∧ Calm rest ∧
    Tried cfg s none (buildRequest cfg method path body none .default) sent last ∧
    Verdict s last rest r s'

theorem wp_requestPlain (cfg : Config) (method : Method) (path : Bytes) (body : Option Bytes) (s : Ctx) :
    wp (requestPlain cfg method path body .default) (Asked cfg method path body s) s := by
  unfold requestPlain requestRawWith
  rw [wp_ite]
  split
  · rename_i ht
    refine wp_ctxFail_of fun es d hc hd _ => ⟨(Ctx.Untouched.refl s).setError d, [], es, none, rfl, hc,
      .unsent ht, .lost none es .arg _ (fun _ h => nomatch h) ⟨.arg, rfl⟩ hd⟩
  · show wp (exchangeWith cfg (fun _ => throwRc .arg) (recoveryCheckin cfg) method path body none
      .default none) _ s
    unfold exchangeWith
    rw [← Cmd.bind_assoc]
    refine wp_bind_of (wp_tried none method path body none) ?_ ?_
    · rintro sent a s₁ ⟨hf, last, ht, rfl, he⟩
      cases a with
      | failed why expired detail =>
        show wp (sendFailed path why expired detail >>= _) _ s₁
        rw [sendFailed_bind]
        exact wp_sendFailed_of fun d hd _ => ⟨hf.setError d, sent, [], _, rfl, .nil, ht,
          .lost _ [] _ _ (fun _ h => nomatch h) ⟨why, rfl⟩ hd⟩
      | done r =>
        show wp (judge path r) _ s₁
        refine wp_judge_of ?_ ?_
        · intro b hr hb
          exact ⟨hf, sent, [], _, rfl, .nil, ht, .good r b s₁ hr hb he⟩
        · intro rc es d hr hc hd
          exact ⟨hf.setError d, sent, es, _, rfl, hc, ht, .bad r es rc _ hr hd.status⟩
    · rintro sent rc s₁ ⟨hf, last, ht, rfl, hr, he⟩
      exact ⟨hf, sent, [], none, (List.append_nil sent).symm, .nil, ht,
        .lost none [] rc s₁ (fun _ h => nomatch h) hr he⟩

/-- The same for a request whose answer must be an object. -/
inductive JsonVerdict (s : Ctx) : Option Answer → List Event → Except Rc Json → Ctx → Prop where
  | good (r : Response) (b : Bytes) (root : Json) (s' : Ctx) (hf : r.fault = none)
      (hb : r.body = some b) (hj : jsonParse (cstr b) = some root) (ho : root.isObject = true)
      (he : s'.lastError = s.lastError) :
      JsonVerdict s (some (.done r)) [⟨.alloc, true⟩] (.ok root) s'
  | bad (r : Response) (rest : List Event) (rc : Rc) (s' : Ctx) (hf : r.fault = some rc)
      (he : s'.lastError.httpStatus = r.status) : JsonVerdict s (some (.done r)) rest (.error rc) s'
  | lost (last : Option Answer) (rest : List Event) (rc : Rc) (s' : Ctx)
      (hl : ∀ r, last ≠ some (.done r)) (hr : rc.ofTransport)
      (he : s'.lastError.httpStatus = 0) : JsonVerdict s last rest (.error rc) s'
  | garbled (r : Response) (b : Bytes) (ok : Bool) (rest : List Event) (s' : Ctx)
      (hf : r.fault = none) (hb : r.body = some b)
      (hj : ok = true → ∀ root, jsonParse (cstr b) = some root → root.isObject = false)
      (he : s'.lastError.httpStatus = 0) :
      JsonVerdict s (some (.done r)) (⟨.alloc, ok⟩ :: rest) (.error .protocol) s'

structure AskedJson (cfg : Config) (method : Method) (path : Bytes) (body : Option Bytes) (s : Ctx)
    (es : List Event) (r : Except Rc Json) (s' : Ctx) : Prop where
  frame : s.Untouched s'
  run : ∃ sent rest last, es = sent ++ rest ∧ Calm rest ∧
    Tried cfg s none (buildRequest cfg method path body none .default) sent last ∧
    JsonVerdict s last rest r s'

theorem wp_requestPlainJson (cfg : Config) (method : Method) (path : Bytes) (body : Option Bytes)
    (s : Ctx) :
    wp (requestPlainJson cfg method path body) (AskedJson cfg method path body s) s := by
  unfold requestPlainJson
  refine wp_bind_of (wp_requestPlain cfg method path body s) ?_ ?_
  · rintro es v s₁ ⟨hf, sent, rest, last, rfl, hc, ht, hv⟩
    cases hv with
    | good r b _ hr hb he =>
      have halloc : ∀ ok : Bool, Calm [⟨.alloc, ok⟩] :=
        fun ok e h => by rw [List.mem_singleton.mp h]; rfl
      refine wp_parseBody (fun root hroot ho => ?_) fun ok payload fmt hj => ?_
      · rw [List.append_nil]
        exact ⟨hf, sent, _, _, rfl, halloc true, ht, .good r b root s₁ hr hb hroot ho he⟩
      · refine wp_ctxFail_of fun es d hce hd _ => ?_
        rw [List.append_nil]
        exact ⟨hf.setError d, sent, _, _, rfl, (halloc ok).append hce, ht, .garbled r b ok es _ hr hb hj hd⟩
  · rintro es rc s₁ ⟨hf, sent, rest, last, rfl, hc, ht, hv⟩
    refine ⟨hf, sent, rest, last, rfl, hc, ht, ?_⟩
    cases hv with
    | bad r _ _ _ hr he => exact .bad r rest rc s₁ hr he
    | lost _ _ _ _ hl hr he => exact .lost last rest rc s₁ hl hr he

theorem Event.loud_self (e : Event) : e.loud = none ∨ e.loud = some e := by
  obtain ⟨op, ans⟩ := e
  cases op with
  | send scope req => exact .inr rfl
  | mark m => exact .inr rfl
  | _ => exact .inl rfl

theorem lastDone_eq {es : List Event} {req : Request} {r : Response} :
    lastDone es = some (req, r) ↔ latest Event.loud es = some ⟨.send none req, .done r⟩ := by
  unfold lastDone
  split
  · rename_i h
    rw [h]
    simp only [Option.some.injEq, Prod.mk.injEq, Event.mk.injEq, Op.send.injEq, true_and]
    constructor
    · rintro ⟨rfl, rfl⟩
      exact ⟨rfl, HEq.rfl⟩
    · rintro ⟨rfl, ha⟩
      exact ⟨rfl, by injection eq_of_heq ha⟩
  · rename_i h
    constructor
    · intro hn
      exact nomatch hn
    · intro hs
      exact absurd hs (h req r)

/-- What is answered later counts, whatever came before. -/
theorem lastDone_append {es es' : List Event} {req : Request} {r : Response}
    (h : lastDone es' = some (req, r)) : lastDone (es ++ es') = some (req, r) :=
  lastDone_eq.mpr (latest_append_some (lastDone_eq.mp h))

/-- The dispatches of a request end with the one whose answer they end with. -/
theorem Tried.latest {cfg : Config} {s : Ctx} {scope : Option Bytes} {req : Bool → Request}
    {sent : List Event} {a : Answer} (h : Tried cfg s scope req sent (some a)) :
    ∃ fresh, latest Event.loud sent = some ⟨.send scope (req fresh), a⟩ := by
  have hsend : ∀ fresh, Dialogue.latest Event.loud
      (pause cfg ++ [(⟨.send scope (req fresh), a⟩ : Event)]) =
        some ⟨.send scope (req fresh), a⟩ := fun fresh => latest_append_some rfl
  cases h with
  | once _ _ => exact ⟨false, hsend false⟩
  | resent why detail check a' _ _ _ hl =>
    rcases hl with hl | hl
    · rw [← Option.some.inj hl]
      exact ⟨true, latest_append_some (hsend true)⟩
    · exact nomatch hl.1

namespace AskedJson
variable {cfg : Config} {method : Method} {path : Bytes} {body : Option Bytes} {s s' : Ctx}
  {es : List Event}

/-- A request that fails with a status on record was answered with that status. -/
theorem blame {rc : Rc} (h : AskedJson cfg method path body s es (.error rc) s')
    (hn : s'.lastError.httpStatus ≠ 0) :
    ∃ fresh r, lastDone es = some (buildRequest cfg method path body none .default fresh, r) ∧
      r.status = s'.lastError.httpStatus ∧ r.fault = some rc := by
  obtain ⟨sent, rest, last, rfl, hc, ht, hv⟩ := h.run
  cases hv with
  | bad r _ _ _ hr he =>
    obtain ⟨fresh, hl⟩ := ht.latest
    exact ⟨fresh, r, by rw [hc.lastDone]; exact lastDone_eq.mpr hl, he.symm, hr⟩
  | lost _ _ _ _ _ _ he => exact absurd he hn
  | garbled _ _ _ _ _ _ _ _ he => exact absurd he hn

/-- A request that succeeds was answered with the object it hands out. -/
theorem answered {root : Json} (h : AskedJson cfg method path body s es (.ok root) s') :
    ∃ fresh r b, lastDone es = some (buildRequest cfg method path body none .default fresh, r) ∧
      r.fault = none ∧ r.body = some b ∧ jsonParse (cstr b) = some root := by
  obtain ⟨sent, rest, last, rfl, hc, ht, hv⟩ := h.run
  cases hv with
  | good r b _ _ hr hb hj _ _ =>
    obtain ⟨fresh, hl⟩ := ht.latest
    exact ⟨fresh, r, b, by rw [hc.lastDone]; exact lastDone_eq.mpr hl, hr, hb, hj⟩

end AskedJson

/-- What a broker exchange can come to. -/
inductive Brokered (cfg : Config) (method : Method) (url body : Option Bytes) (subpath : Bytes)
    (s : Ctx) : List Event → Except Rc (Int × Option Bytes) → Ctx → Prop where
  | good (before : List Event) (r : Response) (hc : Calm before) (h2 : 200 ≤ r.status ∧ r.status < 300) :
      Brokered cfg method url body subpath s
        (before ++ [⟨.send none (buildRequest cfg method (url.getD defaultNotifyUrl ++ subpath) body
          none .verify false), .done r⟩]) (.ok (r.status, r.body.map cstr)) s
  | bad (before after : List Event) (r : Response) (d : ErrorDetail) (hc : Calm before)
      (ha : Calm after) (h2 : r.status < 200 ∨ 300 ≤ r.status) (hd : d.httpStatus = r.status) :
      Brokered cfg method url body subpath s
        (before ++ [⟨.send none (buildRequest cfg method (url.getD defaultNotifyUrl ++ subpath) body
          none .verify false), .done r⟩] ++ after) (.error (mapHttpStatus r.status)) (s.setError d)
  | lost (before after : List Event) (why : SendFailure) (expired : Bool) (detail : Bytes)
      (d : ErrorDetail) (hc : Calm before) (ha : Calm after) (hd : d.httpStatus = 0) :
      Brokered cfg method url body subpath s
        (before ++ [⟨.send none (buildRequest cfg method (url.getD defaultNotifyUrl ++ subpath) body
          none .verify false), .failed why expired detail⟩] ++ after) (.error why.rc) (s.setError d)
  | unsent (es : List Event) (rc : Rc) (d : ErrorDetail) (hc : Calm es) (hr : rc.ofTransport)
      (hd : d.httpStatus = 0) : Brokered cfg method url body subpath s es (.error rc) (s.setError d)

theorem wp_notifySend (cfg : Config) (method : Method) (url body : Option Bytes) (subpath : Bytes)
    (s : Ctx) : wp (notifySend cfg method url subpath body)
      (Brokered cfg method url body subpath s) s := by
  have hunsent : ∀ {fmt : List Piece}, wp (ctxFail .arg 0 none fmt : Cmd (Int × Option Bytes))
      (Brokered cfg method url body subpath s) s :=
    wp_ctxFail_of fun es d hc hd _ => .unsent es .arg d hc ⟨.arg, rfl⟩ hd
  unfold notifySend
  rw [wp_ite]
  split
  · exact hunsent
  · dsimp only
    rw [wp_ite]
    split
    · exact hunsent
    · rw [wp_bind]
      refine wp_need_of (fun before hc => ?_) fun es d hc hd =>
        .unsent es .nomem d hc ⟨.nomem, rfl⟩ hd.status
      dsimp only
      rw [wp_bind, wp_send]
      intro a
      cases a with
      | failed why expired detail =>
        refine wp_ctxFail_of fun after d ha hd _ => ?_
        rw [← List.append_assoc]
        exact .lost before after why expired detail d hc ha hd
      | done r =>
        dsimp only
        rw [wp_ite]
        split
        · rename_i h2
          refine wp_ctxFail_of fun after d ha hd _ => ?_
          rw [← List.append_assoc]
          exact .bad before after r d hc ha h2 hd
        · rename_i h2
          rw [wp_pure, List.append_nil]
          exact .good before r hc (by omega)

/-- An integer claim of a compact token. -/
def claimOf (jwt key : Bytes) : Option Int :=
  (middleSegment jwt).bind fun seg =>
    if seg.length = 0 ∨ 1024 < seg.length then none
    else (b64urlDecode seg 1024).bind fun raw => (jsonParse raw).bind (·.getInt64 key)

/-- What is read is the token's claim; where there is anything to parse and no memory for
it, none is. -/
theorem wp_peekClaim {jwt key : Bytes} {s : Ctx} {Q : List Event → Except Rc (Option Int) → Ctx → Prop}
    (hread : Q [] (.ok (claimOf jwt key)) s)
    (hparse : ∀ ok, Q [⟨.alloc, ok⟩] (.ok (if ok then claimOf jwt key else none)) s) :
    wp (peekClaim jwt key) Q s := by
  unfold peekClaim
  unfold claimOf at hread hparse
  split
  · rename_i hm
    rw [hm] at hread
    exact wp_pure.mpr hread
  · rename_i seg hm
    rw [hm, Option.bind_some] at hread
    rw [wp_ite]
    split
    · rename_i hl
      rw [if_pos hl] at hread
      exact wp_pure.mpr hread
    · rename_i hl
      rw [if_neg hl] at hread
      split
      · rename_i hr
        rw [hr] at hread
        exact wp_pure.mpr hread
      · rename_i raw hr
        unfold parseJson
        simp only [Cmd.bind_assoc]
        rw [wp_bind, wp_alloc]
        intro ok
        have hok := hparse ok
        rw [hm, Option.bind_some, if_neg hl, hr] at hok
        simp only [Cmd.pure_bind, wp_pure, List.append_nil]
        cases ok with
        | false => exact hok
        | true => exact hok

/-- A claim that is read is the token's; without memory none is. -/
theorem wp_peekClaim_of {jwt key : Bytes} {s : Ctx}
    {Q : List Event → Except Rc (Option Int) → Ctx → Prop}
    (h : ∀ es v, Calm es → v = none ∨ v = claimOf jwt key → Q es (.ok v) s) :
    wp (peekClaim jwt key) Q s := by
  refine wp_peekClaim (h [] _ .nil (.inr rfl)) fun ok => h _ _ ?_ ?_
  · exact fun e he => by rw [List.mem_singleton.mp he]; rfl
  · cases ok with
    | false => exact .inl rfl
    | true => exact .inr rfl

end EncedoHem
